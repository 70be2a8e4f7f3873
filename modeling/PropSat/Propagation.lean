import PropSat.Event

/-!
# Propagation

A propagator is the inference step that a search runs at every node: it
extends a valuation by assignments that the clauses force, or finds that no
extension can satisfy them.  It may keep a state from one call to the next.

Unit propagation passes over the clauses again and again, making the last
literal of every unit clause true at once, until a whole pass forces nothing,
and stops early at the first falsified clause.  It ends because each pass but
the last assigns a variable of the clauses that are left.
-/

namespace PropSat

inductive Propagation where
  | consistent (valuation : Valuation)
  /-- Some clause is false under every extension of the valuation. -/
  | conflict
  deriving DecidableEq

/-- The answer of one call of a propagator that keeps a state in `σ`. -/
structure Inference (σ : Type) where
  result : Propagation
  state : σ
  events : Array Event

/-- An inference step together with the state it keeps between calls. -/
structure Propagator (σ : Type) where
  propagate : Cnf → Valuation → σ → Inference σ
  /-- Number of literals forced so far. -/
  propagations : σ → Nat

/-- A propagator that never takes back an assignment. -/
def Propagator.IsMonotone {σ : Type} (propagator : Propagator σ) : Prop :=
  ∀ cnf valuation state extended,
    (propagator.propagate cnf valuation state).result =
      .consistent extended →
    extended.Covers valuation

namespace UnitPropagation

/-- What one pass over some clauses comes to.  The numbers count forced
literals, those of earlier passes and calls included. -/
inductive Pass where
  /-- No clause was falsified.  The clauses that are kept were undetermined;
  all others are satisfied from now on. -/
  | complete (valuation : Valuation) (kept : List Clause) (forced : Nat)
      (events : Array Event)
  | conflict (forced : Nat) (events : Array Event)

/-- One pass over a list of clauses, with the undetermined clauses before
them, latest first.  A forced literal is made true at once, so that later
clauses of the same pass already see it. -/
def pass : List Clause → Valuation → List Clause → Nat → Array Event → Pass
  | [], valuation, kept, forced, events =>
      .complete valuation kept.reverse forced events
  | clause :: rest, valuation, kept, forced, events =>
      match clause.status valuation with
      | .satisfied => pass rest valuation kept forced events
      | .undetermined => pass rest valuation (clause :: kept) forced events
      | .falsified => .conflict forced (events.push (.falsifies clause))
      | .unit literal =>
          pass rest (valuation.satisfy literal) kept (forced + 1)
            (events.push (.forces clause literal))

def openCount (valuation : Valuation) (clauses : List Clause) : Nat :=
  valuation.unassigned (clauses.flatMap Clause.names)

@[simp]
theorem openCount_nil (valuation : Valuation) :
    openCount valuation [] = 0 := rfl

@[simp]
theorem openCount_cons (valuation : Valuation) (clause : Clause)
    (rest : List Clause) :
    openCount valuation (clause :: rest) =
      valuation.unassigned clause.names + openCount valuation rest := by
  simp [openCount, Valuation.unassigned, List.countP_append]

@[simp]
theorem openCount_reverse (valuation : Valuation) (clauses : List Clause) :
    openCount valuation clauses.reverse = openCount valuation clauses :=
  ((List.reverse_perm clauses).flatMap_right _).countP_eq _

theorem openCount_le {larger smaller : Valuation}
    (covers : larger.Covers smaller) (clauses : List Clause) :
    openCount larger clauses ≤ openCount smaller clauses :=
  covers.unassigned_le _

/-- A complete pass keeps every assignment, and closes a literal occurrence
for every literal it forces. -/
theorem pass_complete {clauses kept later : List Clause}
    {valuation extended : Valuation} {forced total : Nat}
    {before after : Array Event}
    (complete : pass clauses valuation kept forced before =
      .complete extended later total after) :
    extended.Covers valuation ∧
      openCount extended later + total ≤
        openCount valuation kept + openCount valuation clauses + forced := by
  induction clauses generalizing valuation kept forced before with
  | nil =>
      simp only [pass, Pass.complete.injEq] at complete
      obtain ⟨rfl, rfl, rfl, _⟩ := complete
      refine ⟨.refl _, ?_⟩
      simp
  | cons clause rest induction =>
      unfold pass at complete
      split at complete
      · have step := induction complete
        refine ⟨step.1, Nat.le_trans step.2 ?_⟩
        simp only [openCount_cons]
        omega
      · have step := induction complete
        refine ⟨step.1, Nat.le_trans step.2 ?_⟩
        simp only [openCount_cons]
        omega
      · cases complete
      · next literal isUnit =>
          have found := Clause.mem_of_statusOf_eq_unit isUnit
          have member : literal.name ∈ clause.names :=
            List.mem_map.mpr ⟨literal, found.1, rfl⟩
          have isOpen : valuation.contains literal.name = false :=
            (literal.value?_eq_none_iff valuation).mp found.2
          have covers := Valuation.covers_assign valuation literal.name
            literal.polarity
          have closed := Valuation.unassigned_assign_lt member isOpen
            literal.polarity
          have keptBound := openCount_le covers kept
          have restBound := openCount_le covers rest
          have step := induction complete
          refine ⟨step.1.trans covers, Nat.le_trans step.2 ?_⟩
          simp only [openCount_cons, Valuation.satisfy]
          omega

/-- Passes over clauses until a pass forces nothing or meets a falsified one.
A satisfied clause stays satisfied, so each pass looks only at the clauses
that the one before found undetermined.  The number counts forced literals,
also those of earlier calls, and of a call that ends in a conflict. -/
def run (clauses : List Clause) (valuation : Valuation) (forced : Nat)
    (events : Array Event) : Inference Nat :=
  match _outcome : pass clauses valuation [] forced events with
  | .conflict total later => ⟨.conflict, total, later⟩
  | .complete extended kept total later =>
      if forced < total then run kept extended total later
      else ⟨.consistent extended, total, later⟩
  termination_by openCount valuation clauses
  decreasing_by
    have bound := (pass_complete _outcome).2
    simp only [openCount_nil] at bound
    omega

theorem run_covers {clauses : List Clause} {valuation extended : Valuation}
    {forced : Nat} {events : Array Event}
    (consistent : (run clauses valuation forced events).result =
      .consistent extended) :
    extended.Covers valuation := by
  fun_induction run clauses valuation forced events with
  | case1 => cases consistent
  | case2 clauses valuation forced events next kept total later outcome more
      induction =>
      exact (induction consistent).trans (pass_complete outcome).1
  | case3 clauses valuation forced events next kept total later outcome =>
      cases consistent
      exact (pass_complete outcome).1

end UnitPropagation

def unitPropagation : Propagator Nat where
  propagate cnf valuation forced :=
    UnitPropagation.run cnf.clauses valuation forced #[]
  propagations forced := forced

theorem unitPropagation_isMonotone : unitPropagation.IsMonotone :=
  fun _ _ _ _ => UnitPropagation.run_covers

def Cnf.propagate (cnf : Cnf) (valuation : Valuation) : Propagation :=
  (unitPropagation.propagate cnf valuation 0).result

end PropSat
