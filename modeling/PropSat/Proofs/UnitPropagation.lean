import PropSat.Proofs.ClauseStatus
import PropSat.Propagation

/-!
# Unit propagation computes the least closed extension

`Passes` is a complete pass as a relation, one rule for each state that a
clause can be in.  What a pass guarantees is proved on it rule by rule, and
carried over to all passes of a propagation by induction on their sequence.

The invariant is that every closed extension of the valuation at the start
also extends the current one: a unit clause leaves it no choice.  A model is
closed, so propagation never loses one.
-/

namespace PropSat

/-- The least valuation that extends a given one and is closed for some
clauses.  It assigns no variables but those of the clauses. -/
structure Valuation.IsClosureOf (closure : Valuation) (clauses : List Clause)
    (valuation : Valuation) : Prop where
  grows : closure.Extends valuation
  closed : closure.IsClosedFor clauses
  least : ∀ other : Valuation, other.Extends valuation →
    other.IsClosedFor clauses → other.Extends closure
  confined : ∀ name, closure.contains name = true →
    valuation.contains name = true ∨ name ∈ clauses.flatMap Clause.names

namespace UnitPropagation

/-- A pass over clauses that meets no falsified one leads from the first
valuation to the second, leaves the clauses of the second list undetermined,
and forces the given literals in order. -/
inductive Passes :
    List Clause → Valuation → Valuation → List Clause → List Literal →
      Prop where
  | done (valuation : Valuation) : Passes [] valuation valuation [] []
  | satisfied {clause : Clause} {rest kept : List Clause}
      {valuation extended : Valuation} {forced : List Literal} :
      clause.status valuation = .satisfied →
      Passes rest valuation extended kept forced →
      Passes (clause :: rest) valuation extended kept forced
  | undetermined {clause : Clause} {rest kept : List Clause}
      {valuation extended : Valuation} {forced : List Literal} :
      clause.status valuation = .undetermined →
      Passes rest valuation extended kept forced →
      Passes (clause :: rest) valuation extended (clause :: kept) forced
  | unit {clause : Clause} {literal : Literal} {rest kept : List Clause}
      {valuation extended : Valuation} {forced : List Literal} :
      clause.status valuation = .unit literal →
      Passes rest (valuation.satisfy literal) extended kept forced →
      Passes (clause :: rest) valuation extended kept (literal :: forced)

theorem passes_of_pass_eq_complete {clauses kept later : List Clause}
    {valuation extended : Valuation} {forced total : Nat}
    {before after : Array Event}
    (complete : pass clauses valuation kept forced before =
      .complete extended later total after) :
    ∃ newKept literals, Passes clauses valuation extended newKept literals ∧
      later = kept.reverse ++ newKept ∧ total = forced + literals.length := by
  induction clauses generalizing valuation kept forced before with
  | nil =>
      simp only [pass, Pass.complete.injEq] at complete
      obtain ⟨rfl, rfl, rfl, _⟩ := complete
      exact ⟨[], [], .done valuation, by simp, rfl⟩
  | cons clause rest induction =>
      unfold pass at complete
      split at complete
      · next satisfied =>
          obtain ⟨newKept, literals, passes, keptLater, count⟩ :=
            induction complete
          exact ⟨newKept, literals, .satisfied satisfied passes, keptLater,
            count⟩
      · next undetermined =>
          obtain ⟨newKept, literals, passes, keptLater, count⟩ :=
            induction complete
          refine ⟨clause :: newKept, literals,
            .undetermined undetermined passes, ?_, count⟩
          simp [keptLater]
      · cases complete
      · next literal isUnit =>
          obtain ⟨newKept, literals, passes, keptLater, count⟩ :=
            induction complete
          refine ⟨newKept, literal :: literals, .unit isUnit passes,
            keptLater, ?_⟩
          rw [count, List.length_cons]
          omega

/-- A pass that ends early is a complete pass over the clauses before the
falsified one. -/
theorem passes_of_pass_eq_conflict {clauses kept : List Clause}
    {valuation : Valuation} {forced total : Nat} {before after : Array Event}
    (conflict : pass clauses valuation kept forced before =
      .conflict total after) :
    ∃ early clause late extended newKept literals,
      clauses = early ++ clause :: late ∧
        Passes early valuation extended newKept literals ∧
          clause.status extended = .falsified ∧
            total = forced + literals.length := by
  induction clauses generalizing valuation kept forced before with
  | nil => simp [pass] at conflict
  | cons first rest induction =>
      unfold pass at conflict
      split at conflict
      · next satisfied =>
          obtain ⟨early, clause, late, extended, newKept, literals, rfl,
            passes, falsified, count⟩ := induction conflict
          exact ⟨first :: early, clause, late, extended, newKept, literals,
            rfl, .satisfied satisfied passes, falsified, count⟩
      · next undetermined =>
          obtain ⟨early, clause, late, extended, newKept, literals, rfl,
            passes, falsified, count⟩ := induction conflict
          exact ⟨first :: early, clause, late, extended, first :: newKept,
            literals, rfl, .undetermined undetermined passes, falsified,
            count⟩
      · next falsified =>
          simp only [Pass.conflict.injEq] at conflict
          obtain ⟨rfl, _⟩ := conflict
          exact ⟨[], first, rest, valuation, [], [], rfl, .done valuation,
            falsified, rfl⟩
      · next literal isUnit =>
          obtain ⟨early, clause, late, extended, newKept, literals, rfl,
            passes, falsified, count⟩ := induction conflict
          refine ⟨first :: early, clause, late, extended, newKept,
            literal :: literals, rfl, .unit isUnit passes, falsified, ?_⟩
          rw [count, List.length_cons]
          omega

namespace Passes

variable {clauses kept : List Clause} {valuation extended : Valuation}
  {forced : List Literal}

theorem grows (passes : Passes clauses valuation extended kept forced) :
    extended.Extends valuation := by
  induction passes with
  | done valuation => exact .refl valuation
  | satisfied _ _ induction => exact induction
  | undetermined _ _ induction => exact induction
  | unit isUnit _ induction =>
      have isOpen := (Clause.mem_of_statusOf_eq_unit isUnit).2
      exact induction.trans (Valuation.extends_satisfy isOpen)

/-- Of the clauses passed over, those not kept are satisfied for good. -/
theorem settled (passes : Passes clauses valuation extended kept forced) :
    ∀ clause ∈ clauses,
      clause.status extended = .satisfied ∨ clause ∈ kept := by
  induction passes with
  | done valuation =>
      intro clause member
      cases member
  | satisfied satisfied rest induction =>
      intro clause member
      rcases List.mem_cons.mp member with rfl | later
      · exact .inl (Clause.status_eq_satisfied_of_extends rest.grows satisfied)
      · exact induction clause later
  | undetermined _ _ induction =>
      intro clause member
      rcases List.mem_cons.mp member with rfl | later
      · exact .inr List.mem_cons_self
      · rcases induction clause later with satisfied | isKept
        · exact .inl satisfied
        · exact .inr (List.mem_cons_of_mem _ isKept)
  | @unit unitClause literal _ _ _ _ _ isUnit rest induction =>
      intro clause member
      rcases List.mem_cons.mp member with rfl | later
      · have inClause := (Clause.mem_of_statusOf_eq_unit isUnit).1
        have holds := Literal.value?_of_extends rest.grows
          (literal.value?_satisfy _)
        refine .inl (Clause.status_eq_satisfied_iff.mpr ?_)
        exact Clause.isSatisfiedBy_iff.mpr ⟨literal, inClause, holds⟩
      · exact induction clause later

theorem mem_of_mem_kept
    (passes : Passes clauses valuation extended kept forced) :
    ∀ clause ∈ kept, clause ∈ clauses := by
  induction passes with
  | done valuation =>
      intro clause member
      exact member
  | satisfied _ _ induction =>
      intro clause member
      exact List.mem_cons_of_mem _ (induction clause member)
  | undetermined _ _ induction =>
      intro clause member
      rcases List.mem_cons.mp member with rfl | later
      · exact List.mem_cons_self
      · exact List.mem_cons_of_mem _ (induction clause later)
  | unit _ _ induction =>
      intro clause member
      exact List.mem_cons_of_mem _ (induction clause member)

/-- A closed extension of the valuation at the start extends the one at the
end: each forced literal is true under it. -/
theorem least (passes : Passes clauses valuation extended kept forced)
    {other : Valuation} (grows : other.Extends valuation)
    (closed : other.IsClosedFor clauses) : other.Extends extended := by
  induction passes with
  | done valuation => exact grows
  | satisfied _ _ induction =>
      exact induction grows fun clause member =>
        closed clause (List.mem_cons_of_mem _ member)
  | undetermined _ _ induction =>
      exact induction grows fun clause member =>
        closed clause (List.mem_cons_of_mem _ member)
  | unit isUnit _ induction =>
      have holds := closed.value?_of_unit grows List.mem_cons_self isUnit
      exact induction (grows.satisfy_right holds) fun clause member =>
        closed clause (List.mem_cons_of_mem _ member)

theorem confined (passes : Passes clauses valuation extended kept forced) :
    ∀ name, extended.contains name = true →
      valuation.contains name = true ∨
        name ∈ clauses.flatMap Clause.names := by
  induction passes with
  | done valuation =>
      intro name assigned
      exact .inl assigned
  | satisfied _ _ induction =>
      intro name assigned
      rcases induction name assigned with before | later
      · exact .inl before
      · exact .inr (List.mem_append_right _ later)
  | undetermined _ _ induction =>
      intro name assigned
      rcases induction name assigned with before | later
      · exact .inl before
      · exact .inr (List.mem_append_right _ later)
  | @unit clause literal _ _ valuation _ _ isUnit _ induction =>
      intro name assigned
      rcases induction name assigned with before | later
      · by_cases same : literal.name = name
        · subst same
          have inClause := (Clause.mem_of_statusOf_eq_unit isUnit).1
          exact .inr (List.mem_append_left _
            (List.mem_map.mpr ⟨literal, inClause, rfl⟩))
        · rw [Valuation.contains_eq_isSome, Valuation.satisfy,
            Valuation.get?_assign_of_ne same,
            ← Valuation.contains_eq_isSome] at before
          exact .inl before
      · exact .inr (List.mem_append_right _ later)

/-- A pass that forces nothing changes nothing, and has met only satisfied
and undetermined clauses. -/
theorem eq_and_closed_of_idle
    (passes : Passes clauses valuation extended kept forced)
    (idle : forced = []) :
    extended = valuation ∧ valuation.IsClosedFor clauses := by
  induction passes with
  | done valuation =>
      refine ⟨rfl, ?_⟩
      intro clause member
      cases member
  | satisfied satisfied _ induction =>
      obtain ⟨same, closed⟩ := induction idle
      exact ⟨same, List.forall_mem_cons.mpr ⟨.inl satisfied, closed⟩⟩
  | undetermined undetermined _ induction =>
      obtain ⟨same, closed⟩ := induction idle
      exact ⟨same, List.forall_mem_cons.mpr ⟨.inr undetermined, closed⟩⟩
  | unit => cases idle

end Passes

theorem run_of_conflict {clauses : List Clause} {valuation : Valuation}
    {forced total : Nat} {events later : Array Event}
    (outcome : pass clauses valuation [] forced events =
      .conflict total later) :
    run clauses valuation forced events = ⟨.conflict, total, later⟩ := by
  rw [run]
  split <;> simp_all

theorem run_of_complete {clauses kept : List Clause}
    {valuation extended : Valuation}
    {forced total : Nat} {events later : Array Event}
    (outcome : pass clauses valuation [] forced events =
      .complete extended kept total later) :
    run clauses valuation forced events =
      if forced < total then run kept extended total later
      else ⟨.consistent extended, total, later⟩ := by
  rw [run]
  split <;> simp_all

/-- One pass after another leads to the least closed extension. -/
theorem run_isClosureOf {clauses : List Clause}
    {valuation extended : Valuation} {forced : Nat} {events : Array Event}
    (consistent : (run clauses valuation forced events).result =
      .consistent extended) :
    extended.IsClosureOf clauses valuation := by
  fun_induction run clauses valuation forced events with
  | case1 => cases consistent
  | case2 clauses valuation forced events next kept total later outcome more
      induction =>
      obtain ⟨newKept, literals, passes, rfl, _⟩ :=
        passes_of_pass_eq_complete outcome
      have closure := induction consistent
      refine ⟨closure.grows.trans passes.grows, ?_, ?_, ?_⟩
      · intro clause member
        rcases passes.settled clause member with satisfied | isKept
        · exact .inl
            (Clause.status_eq_satisfied_of_extends closure.grows satisfied)
        · exact closure.closed clause isKept
      · intro other grows closed
        refine closure.least other (passes.least grows closed) ?_
        intro clause isKept
        exact closed clause (passes.mem_of_mem_kept clause isKept)
      · intro name assigned
        rcases closure.confined name assigned with before | inKept
        · exact passes.confined name before
        · obtain ⟨clause, isKept, inClause⟩ := List.mem_flatMap.mp inKept
          exact .inr (List.mem_flatMap.mpr
            ⟨clause, passes.mem_of_mem_kept clause isKept, inClause⟩)
  | case3 clauses valuation forced events next kept total later outcome
      idle =>
      cases consistent
      obtain ⟨newKept, literals, passes, _, count⟩ :=
        passes_of_pass_eq_complete outcome
      have nothingForced : literals = [] :=
        List.length_eq_zero_iff.mp (by omega)
      obtain ⟨rfl, closed⟩ := passes.eq_and_closed_of_idle nothingForced
      refine ⟨.refl _, closed, ?_, ?_⟩
      · intro other grows _
        exact grows
      · intro name assigned
        exact .inl assigned

/-- After a conflict there is no closed extension. -/
theorem not_closed_of_run_conflict {clauses : List Clause}
    {valuation : Valuation} {forced : Nat} {events : Array Event}
    (conflict : (run clauses valuation forced events).result = .conflict)
    {other : Valuation} (grows : other.Extends valuation) :
    ¬ other.IsClosedFor clauses := by
  intro closed
  fun_induction run clauses valuation forced events with
  | case1 clauses valuation forced events total later outcome =>
      obtain ⟨early, clause, late, extended, newKept, literals, rfl, passes,
        falsified, _⟩ := passes_of_pass_eq_conflict outcome
      have growsOn : other.Extends extended :=
        passes.least grows fun clause member =>
          closed clause (List.mem_append_left _ member)
      have member : clause ∈ early ++ clause :: late :=
        List.mem_append_right _ List.mem_cons_self
      exact closed.not_falsified growsOn member falsified
  | case2 clauses valuation forced events next kept total later outcome more
      induction =>
      obtain ⟨newKept, literals, passes, rfl, _⟩ :=
        passes_of_pass_eq_complete outcome
      refine induction conflict (passes.least grows closed) ?_
      intro clause isKept
      exact closed clause (passes.mem_of_mem_kept clause isKept)
  | case3 => cases conflict

end UnitPropagation

end PropSat
