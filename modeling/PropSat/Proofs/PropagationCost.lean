import Mathlib.Data.List.Perm.Basic
import PropSat.Proofs.UnitPropagation

/-!
# What unit propagation counts

Every literal that is forced is open at that moment, although the valuation
changes during a pass, so that each variable is assigned at most once and the
count grows with the valuation.  `Gains` follows the literals one after
another through all passes, whether they end in a conflict or not.

The passes of `run` leave out clauses that are satisfied already.  A pass over
all clauses does the same, since a satisfied clause does nothing and stays
satisfied, and each pass but the last gains a literal.  Hence one full pass
more than there are open variables is always enough.
-/

namespace PropSat

namespace Valuation

/-- The assignments of one valuation that another one does not make. -/
def newAssignments (larger smaller : Valuation) : List (String × Bool) :=
  larger.toList.filter fun pair => pair ∉ smaller.toList

theorem mem_toList_iff {valuation : Valuation} {name : String}
    {value : Bool} :
    (name, value) ∈ valuation.toList ↔ valuation.get? name = some value :=
  Std.ExtTreeMap.mem_toList_iff_getElem?_eq_some

theorem nodup_toList (valuation : Valuation) : valuation.toList.Nodup := by
  refine Std.ExtTreeMap.distinct_keys_toList.imp ?_
  intro first second different same
  exact different (by simp [same])

/-- What a larger valuation adds is what it has more. -/
theorem Extends.length_newAssignments {larger smaller : Valuation}
    (grows : larger.Extends smaller) :
    smaller.size + (larger.newAssignments smaller).length = larger.size := by
  have shared : (larger.toList.filter (· ∈ smaller.toList)).Perm
      smaller.toList := by
    refine (List.perm_ext_iff_of_nodup (larger.nodup_toList.filter _)
      smaller.nodup_toList).mpr ?_
    rintro ⟨name, value⟩
    rw [List.mem_filter, decide_eq_true_iff, and_iff_right_iff_imp]
    intro member
    rw [mem_toList_iff] at member ⊢
    exact grows name value member
  have split := List.length_eq_countP_add_countP (l := larger.toList)
    (· ∈ smaller.toList)
  rw [List.countP_eq_length_filter, shared.length_eq] at split
  rw [newAssignments, ← List.countP_eq_length_filter]
  simp only [decide_not]
  simpa [toList, size] using split.symm

theorem size_satisfy {valuation : Valuation} {literal : Literal}
    (isOpen : valuation.contains literal.name = false) :
    (valuation.satisfy literal).size = valuation.size + 1 := by
  unfold contains at isOpen
  simp [satisfy, assign, size, Std.ExtTreeMap.size_insert, isOpen]

/-- Assignments to different names, all of them open before, add up. -/
theorem size_extend {start : Valuation} {pairs : List (String × Bool)}
    (distinct : (pairs.map Prod.fst).Nodup)
    (areOpen : ∀ pair ∈ pairs, start.contains pair.1 = false) :
    (start.extend pairs).size = start.size + pairs.length := by
  induction pairs generalizing start with
  | nil => rfl
  | cons first rest induction =>
      obtain ⟨name, value⟩ := first
      rw [List.map_cons, List.nodup_cons] at distinct
      obtain ⟨isOpen, restOpen⟩ := List.forall_mem_cons.mp areOpen
      have stillOpen : ∀ pair ∈ rest,
          (start.assign name value).2.contains pair.1 = false := by
        intro pair member
        have different : name ≠ pair.1 := by
          intro same
          exact distinct.1 (List.mem_map.mpr ⟨pair, member, same.symm⟩)
        rw [contains_eq_isSome, get?_assign_of_ne different,
          ← contains_eq_isSome]
        exact restOpen pair member
      have grown : (start.satisfy ⟨name, value⟩).size = start.size + 1 :=
        size_satisfy isOpen
      rw [extend, List.foldl_cons, ← extend, induction distinct.2 stillOpen,
        List.length_cons]
      change (start.satisfy ⟨name, value⟩).size + _ = _
      omega

/-- Making some literals true, one after another, leads from the first
valuation to the second.  Each is over a name of the list that has no value
when its turn comes. -/
inductive Gains (names : List String) :
    Valuation → List Literal → Valuation → Prop where
  | done (valuation : Valuation) : Gains names valuation [] valuation
  | next {valuation extended : Valuation} {literal : Literal}
      {literals : List Literal} :
      literal.name ∈ names → valuation.contains literal.name = false →
      Gains names (valuation.satisfy literal) literals extended →
      Gains names valuation (literal :: literals) extended

namespace Gains

variable {names : List String} {valuation middle extended : Valuation}
  {literals later : List Literal}

theorem append (first : Gains names valuation literals middle)
    (second : Gains names middle later extended) :
    Gains names valuation (literals ++ later) extended := by
  induction first with
  | done => exact second
  | next member isOpen _ induction =>
      exact .next member isOpen (induction second)

theorem eq_foldl (gains : Gains names valuation literals extended) :
    extended = literals.foldl satisfy valuation := by
  induction gains with
  | done => rfl
  | next _ _ _ induction => exact induction

theorem grows (gains : Gains names valuation literals extended) :
    extended.Extends valuation := by
  induction gains with
  | done => exact .refl _
  | next _ isOpen _ induction =>
      exact induction.trans (extends_assign isOpen _)

theorem size_eq (gains : Gains names valuation literals extended) :
    extended.size = valuation.size + literals.length := by
  induction gains with
  | done => rfl
  | next _ isOpen _ induction =>
      rw [induction, size_satisfy isOpen, List.length_cons]
      omega

theorem length_newAssignments
    (gains : Gains names valuation literals extended) :
    (extended.newAssignments valuation).length = literals.length := by
  have added := gains.grows.length_newAssignments
  have size := gains.size_eq
  omega

theorem unassigned_le (gains : Gains names valuation literals extended) :
    extended.unassigned names + literals.length ≤
      valuation.unassigned names := by
  induction gains with
  | done => exact Nat.le_refl _
  | @next valuation _ literal _ member isOpen _ induction =>
      have closed := unassigned_assign_lt member isOpen literal.polarity
      rw [satisfy] at induction
      rw [List.length_cons]
      omega

theorem isOpen (gains : Gains names valuation literals extended) :
    ∀ literal ∈ literals,
      literal.name ∈ names ∧ valuation.contains literal.name = false := by
  induction gains with
  | done =>
      intro literal member
      cases member
  | @next valuation _ first _ isName isOpen _ induction =>
      intro literal member
      rcases List.mem_cons.mp member with rfl | later
      · exact ⟨isName, isOpen⟩
      · obtain ⟨inNames, openLater⟩ := induction literal later
        refine ⟨inNames, ?_⟩
        rw [← Bool.not_eq_true] at openLater ⊢
        intro assigned
        exact openLater (covers_assign valuation _ _ _ assigned)

theorem nodup (gains : Gains names valuation literals extended) :
    (literals.map Literal.name).Nodup := by
  induction gains with
  | done => exact List.nodup_nil
  | @next valuation _ first _ _ _ rest induction =>
      rw [List.map_cons, List.nodup_cons]
      refine ⟨?_, induction⟩
      intro member
      obtain ⟨literal, isLater, sameName⟩ := List.mem_map.mp member
      have isOpen := (rest.isOpen literal isLater).2
      rw [sameName, satisfy, contains_assign_self] at isOpen
      cases isOpen

end Gains

end Valuation

namespace UnitPropagation

/-- The literals that were made true, in order, by the record of events. -/
def forcedLiterals (events : Array Event) : List Literal :=
  events.toList.filterMap fun
    | .forces _ literal => some literal
    | _ => none

@[simp]
theorem forcedLiterals_forces (events : Array Event) (clause : Clause)
    (literal : Literal) :
    forcedLiterals (events.push (.forces clause literal)) =
      forcedLiterals events ++ [literal] := by
  simp [forcedLiterals]

@[simp]
theorem forcedLiterals_falsifies (events : Array Event) (clause : Clause) :
    forcedLiterals (events.push (.falsifies clause)) =
      forcedLiterals events := by
  simp [forcedLiterals]

/-- The pass counts and records the given literals, and leads to the given
valuation unless it ends in a conflict. -/
def Pass.Reports (forced : Nat) (before : Array Event)
    (literals : List Literal) (extended : Valuation) : Pass → Prop
  | .complete final _ total after =>
      final = extended ∧ total = forced + literals.length ∧
        forcedLiterals after = forcedLiterals before ++ literals
  | .conflict total after =>
      total = forced + literals.length ∧
        forcedLiterals after = forcedLiterals before ++ literals

theorem Pass.Reports.cons {outcome : Pass} {forced : Nat}
    {before : Array Event} {clause : Clause} {literal : Literal}
    {literals : List Literal} {extended : Valuation}
    (reports : outcome.Reports (forced + 1)
      (before.push (.forces clause literal)) literals extended) :
    outcome.Reports forced before (literal :: literals) extended := by
  cases outcome with
  | complete final kept total after =>
      simpa [Pass.Reports, Nat.add_assoc, Nat.add_comm 1] using reports
  | conflict total after =>
      simpa [Pass.Reports, Nat.add_assoc, Nat.add_comm 1] using reports

theorem Passes.within_of_within {names : List String}
    {clauses kept : List Clause} {valuation extended : Valuation}
    {forced : List Literal}
    (passes : Passes clauses valuation extended kept forced)
    (within : ∀ name ∈ clauses.flatMap Clause.names, name ∈ names) :
    ∀ name ∈ kept.flatMap Clause.names, name ∈ names := by
  intro name member
  obtain ⟨clause, isKept, inClause⟩ := List.mem_flatMap.mp member
  exact within name (List.mem_flatMap.mpr
    ⟨clause, passes.mem_of_mem_kept clause isKept, inClause⟩)

theorem pass_gains {names : List String} {clauses : List Clause}
    (within : ∀ name ∈ clauses.flatMap Clause.names, name ∈ names)
    (valuation : Valuation) (kept : List Clause) (forced : Nat)
    (before : Array Event) :
    ∃ literals extended, valuation.Gains names literals extended ∧
      (pass clauses valuation kept forced before).Reports forced before
        literals extended := by
  induction clauses generalizing valuation kept forced before with
  | nil => exact ⟨[], valuation, .done valuation, rfl, rfl, by simp⟩
  | cons clause rest induction =>
      have restWithin : ∀ name ∈ rest.flatMap Clause.names, name ∈ names :=
        fun name member => within name (List.mem_append_right _ member)
      cases status : clause.status valuation with
      | satisfied =>
          simpa [pass, status] using
            induction restWithin valuation kept forced before
      | undetermined =>
          simpa [pass, status] using
            induction restWithin valuation (clause :: kept) forced before
      | falsified =>
          refine ⟨[], valuation, .done valuation, ?_⟩
          simp [pass, status, Pass.Reports]
      | unit literal =>
          obtain ⟨inClause, unassigned⟩ := Clause.mem_of_statusOf_eq_unit status
          have isName : literal.name ∈ names :=
            within _ (List.mem_append_left _
              (List.mem_map.mpr ⟨literal, inClause, rfl⟩))
          have isOpen := (literal.value?_eq_none_iff valuation).mp unassigned
          obtain ⟨literals, extended, gains, reports⟩ := induction restWithin
            (valuation.satisfy literal) kept (forced + 1)
            (before.push (.forces clause literal))
          refine ⟨literal :: literals, extended, .next isName isOpen gains, ?_⟩
          simpa [pass, status] using reports.cons

/-- A propagation counts and records the literals that it makes true, one
after another, on the way to the valuation that it finds. -/
theorem run_gains {names : List String} (clauses : List Clause)
    (valuation : Valuation) (forced : Nat) (events : Array Event)
    (within : ∀ name ∈ clauses.flatMap Clause.names, name ∈ names) :
    ∃ literals extended, valuation.Gains names literals extended ∧
      (run clauses valuation forced events).state =
        forced + literals.length ∧
      forcedLiterals (run clauses valuation forced events).events =
        forcedLiterals events ++ literals ∧
      ∀ final, (run clauses valuation forced events).result =
        .consistent final → final = extended := by
  fun_induction run clauses valuation forced events with
  | case1 clauses valuation forced events total later outcome =>
      obtain ⟨literals, extended, gains, reports⟩ :=
        pass_gains within valuation [] forced events
      rw [outcome] at reports
      obtain ⟨counted, recorded⟩ := reports
      refine ⟨literals, extended, gains, counted, recorded, ?_⟩
      intro final found
      cases found
  | case2 clauses valuation forced events middle kept total later outcome more
      induction =>
      obtain ⟨first, _, gains, reports⟩ :=
        pass_gains within valuation [] forced events
      rw [outcome] at reports
      obtain ⟨rfl, counted, recorded⟩ := reports
      obtain ⟨newKept, _, passes, rfl, _⟩ :=
        passes_of_pass_eq_complete outcome
      obtain ⟨second, extended, laterGains, laterCounted, laterRecorded,
        ends⟩ := induction (passes.within_of_within within)
      refine ⟨first ++ second, extended, gains.append laterGains, ?_, ?_,
        ends⟩
      · rw [laterCounted, counted, List.length_append, Nat.add_assoc]
      · rw [laterRecorded, recorded, List.append_assoc]
  | case3 clauses valuation forced events middle kept total later outcome =>
      obtain ⟨literals, _, gains, reports⟩ :=
        pass_gains within valuation [] forced events
      rw [outcome] at reports
      obtain ⟨rfl, counted, recorded⟩ := reports
      refine ⟨literals, middle, gains, counted, recorded, ?_⟩
      intro final found
      cases found
      rfl

/-- The second list of clauses is the first one without some clauses that are
satisfied under the valuation. -/
inductive LeavesOut (valuation : Valuation) :
    List Clause → List Clause → Prop where
  | nil : LeavesOut valuation [] []
  | keep {clauses kept : List Clause} (clause : Clause) :
      LeavesOut valuation clauses kept →
      LeavesOut valuation (clause :: clauses) (clause :: kept)
  | skip {clauses kept : List Clause} {clause : Clause} :
      clause.status valuation = .satisfied →
      LeavesOut valuation clauses kept →
      LeavesOut valuation (clause :: clauses) kept

namespace LeavesOut

variable {valuation larger : Valuation} {clauses middle kept : List Clause}

theorem refl (valuation : Valuation) (clauses : List Clause) :
    LeavesOut valuation clauses clauses := by
  induction clauses with
  | nil => exact .nil
  | cons clause rest induction => exact .keep clause induction

theorem of_extends (leavesOut : LeavesOut valuation clauses kept)
    (grows : larger.Extends valuation) : LeavesOut larger clauses kept := by
  induction leavesOut with
  | nil => exact .nil
  | keep clause _ induction => exact .keep clause induction
  | skip satisfied _ induction =>
      exact .skip (Clause.status_eq_satisfied_of_extends grows satisfied)
        induction

theorem trans (first : LeavesOut valuation clauses middle)
    (second : LeavesOut valuation middle kept) :
    LeavesOut valuation clauses kept := by
  induction first generalizing kept with
  | nil => exact second
  | keep clause _ induction =>
      cases second with
      | keep _ rest => exact .keep clause (induction rest)
      | skip satisfied rest => exact .skip satisfied (induction rest)
  | skip satisfied _ induction => exact .skip satisfied (induction second)

/-- What is left out makes no difference to a pass, since the satisfied clauses
stay satisfied while literals are forced. -/
theorem pass_eq (leavesOut : LeavesOut valuation clauses kept)
    (before : List Clause) (forced : Nat) (events : Array Event) :
    pass clauses valuation before forced events =
      pass kept valuation before forced events := by
  induction clauses generalizing valuation kept before forced events with
  | nil =>
      cases leavesOut
      rfl
  | cons clause rest induction =>
      cases leavesOut with
      | skip satisfied restOut =>
          rw [pass, satisfied]
          exact induction restOut before forced events
      | keep _ restOut =>
          cases status : clause.status valuation with
          | satisfied =>
              simpa [pass, status] using induction restOut before forced events
          | undetermined =>
              simpa [pass, status] using
                induction restOut (clause :: before) forced events
          | falsified => simp [pass, status]
          | unit literal =>
              have isOpen := (Clause.mem_of_statusOf_eq_unit status).2
              have laterOut :=
                restOut.of_extends (Valuation.extends_satisfy isOpen)
              simpa [pass, status] using induction laterOut before _ _

end LeavesOut

/-- A pass keeps all clauses but those that are satisfied at its end. -/
theorem Passes.leavesOut {clauses kept : List Clause}
    {valuation extended : Valuation} {forced : List Literal}
    (passes : Passes clauses valuation extended kept forced) :
    LeavesOut extended clauses kept := by
  induction passes with
  | done valuation => exact .nil
  | satisfied satisfied rest induction =>
      exact .skip (Clause.status_eq_satisfied_of_extends rest.grows satisfied)
        induction
  | undetermined _ _ induction => exact .keep _ induction
  | @unit clause literal _ _ _ _ _ isUnit rest induction =>
      have inClause := (Clause.mem_of_statusOf_eq_unit isUnit).1
      have holds := Literal.value?_of_extends rest.grows
        (literal.value?_satisfy _)
      refine .skip (Clause.status_eq_satisfied_iff.mpr ?_) induction
      exact Clause.isSatisfiedBy_iff.mpr ⟨literal, inClause, holds⟩

/-- Passes over all of the clauses until one forces nothing or meets a
falsified clause.  The first number bounds how many passes are made; `none`
means that more are needed. -/
def fullPasses (clauses : List Clause) :
    Nat → Valuation → Nat → Array Event → Option (Inference Nat)
  | 0, _, _, _ => none
  | bound + 1, valuation, forced, events =>
      match pass clauses valuation [] forced events with
      | .conflict total later => some ⟨.conflict, total, later⟩
      | .complete extended _ total later =>
          if forced < total then fullPasses clauses bound extended total later
          else some ⟨.consistent extended, total, later⟩

/-- Each full pass but the last closes a variable.  A bound above the number
of open ones is never reached, and the clauses that `run` leaves out make no
difference. -/
theorem fullPasses_eq_run {names : List String} {clauses kept : List Clause}
    (within : ∀ name ∈ kept.flatMap Clause.names, name ∈ names)
    {valuation : Valuation} (leavesOut : LeavesOut valuation clauses kept)
    {bound : Nat} (enough : valuation.unassigned names < bound)
    (forced : Nat) (events : Array Event) :
    fullPasses clauses bound valuation forced events =
      some (run kept valuation forced events) := by
  induction bound generalizing kept valuation forced events with
  | zero => cases enough
  | succ bound induction =>
      rw [fullPasses, leavesOut.pass_eq]
      cases outcome : pass kept valuation [] forced events with
      | conflict total later => rw [run_of_conflict outcome]
      | complete extended newKept total later =>
          rw [run_of_complete outcome]
          dsimp only
          split
          · next more =>
              obtain ⟨literals, _, gains, reports⟩ :=
                pass_gains within valuation [] forced events
              rw [outcome] at reports
              obtain ⟨rfl, counted, _⟩ := reports
              obtain ⟨_, _, passes, rfl, _⟩ :=
                passes_of_pass_eq_complete outcome
              have stillOut := leavesOut.of_extends gains.grows
              have fewer := gains.unassigned_le
              exact induction (passes.within_of_within within)
                (stillOut.trans passes.leavesOut) (by omega) total later
          · rfl

end UnitPropagation

/-- However many calls there were before, a call ends within one full pass
more than the clauses have open variables.  The literals that it forces are
over different open variables of the clauses, whatever it ends with, and are
what it counts; on success the valuation has them in addition to what it had,
and nothing else. -/
theorem propagation_counts_assignments (cnf : Cnf) (valuation : Valuation)
    (forced : Nat) :
    (∀ bound, valuation.openVariables cnf.names < bound →
      UnitPropagation.fullPasses cnf.clauses bound valuation forced #[] =
        some (unitPropagation.propagate cnf valuation forced)) ∧
    (∃ literals, UnitPropagation.forcedLiterals
        (unitPropagation.propagate cnf valuation forced).events = literals ∧
      (literals.map Literal.name).Nodup ∧
      (∀ literal ∈ literals, literal.name ∈ cnf.names ∧
        valuation.contains literal.name = false) ∧
      unitPropagation.propagations
          (unitPropagation.propagate cnf valuation forced).state =
        forced + literals.length ∧
      ∀ extended, (unitPropagation.propagate cnf valuation forced).result =
          .consistent extended →
        extended = literals.foldl Valuation.satisfy valuation) ∧
    (∀ extended, (unitPropagation.propagate cnf valuation forced).result =
        .consistent extended →
      extended.Extends valuation ∧
      (∀ name, extended.contains name = true →
        valuation.contains name = true ∨ name ∈ cnf.names) ∧
      unitPropagation.propagations
          (unitPropagation.propagate cnf valuation forced).state =
        forced + (extended.newAssignments valuation).length) ∧
    ((unitPropagation.propagate cnf valuation forced).result = .conflict →
      ∃ grown, grown ≤ valuation.openVariables cnf.names ∧
        unitPropagation.propagations
            (unitPropagation.propagate cnf valuation forced).state =
          forced + grown) := by
  have within : ∀ name ∈ cnf.clauses.flatMap Clause.names,
      name ∈ cnf.vars.toList := fun name => Cnf.mem_vars_iff.mpr
  obtain ⟨literals, extended, gains, counted, recorded, ends⟩ :=
    UnitPropagation.run_gains cnf.clauses valuation forced #[] within
  refine ⟨?_, ⟨literals, ?_, gains.nodup, ?_, counted, ?_⟩, ?_, ?_⟩
  · intro bound enough
    exact UnitPropagation.fullPasses_eq_run within (.refl valuation _) enough
      forced #[]
  · exact recorded
  · intro literal member
    obtain ⟨inVars, isOpen⟩ := gains.isOpen literal member
    exact ⟨Cnf.mem_vars_iff.mp inVars, isOpen⟩
  · intro final found
    rw [ends final found]
    exact gains.eq_foldl
  · intro final found
    have closure := UnitPropagation.run_isClosureOf found
    refine ⟨closure.grows, closure.confined, ?_⟩
    rw [ends final found, gains.length_newAssignments]
    exact counted
  · intro _
    refine ⟨literals.length, ?_, counted⟩
    have fewer := gains.unassigned_le
    exact Nat.le_trans (Nat.le_add_left _ _) fewer

end PropSat
