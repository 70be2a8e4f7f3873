import PropSat.Proofs.UnitPropagation

/-!
# What unit propagation finds

Passes over the clauses in another order force other literals first, and stop
at another falsified clause.  What is found is the same, because it is
determined by the closed valuations alone: the least one that extends the
valuation at the start, or a conflict where there is none.

Which valuations are closed depends neither on the order and the repeats of
the clauses nor on the order of the literals in a clause, so that propagation
does not either.  That a closure propagates to itself, and that more
assignments at the start lead to more at the end, is what the least element
of a family of valuations gives.
-/

namespace PropSat

/-- Each of the two clause sets has every clause of the other, up to the order
of its literals.  Where a clause stands and how often does not matter. -/
def Cnf.SameClauses (first second : Cnf) : Prop :=
  (∀ clause ∈ first.clauses, ∃ other ∈ second.clauses,
    clause.literals.Perm other.literals) ∧
  ∀ clause ∈ second.clauses, ∃ other ∈ first.clauses,
    clause.literals.Perm other.literals

/-- A valuation that is closed for some clauses is closed for others that are
all among them, up to the order of their literals. -/
theorem Valuation.IsClosedFor.of_reordered {valuation : Valuation}
    {clauses others : List Clause} (closed : valuation.IsClosedFor clauses)
    (reordered : ∀ clause ∈ others, ∃ other ∈ clauses,
      clause.literals.Perm other.literals) :
    valuation.IsClosedFor others := by
  intro clause member
  obtain ⟨other, isClause, same⟩ := reordered clause member
  rw [Clause.status_eq_of_perm same valuation]
  exact closed other isClause

theorem Cnf.SameClauses.isClosedFor_iff {first second : Cnf}
    (same : first.SameClauses second) (valuation : Valuation) :
    valuation.IsClosedFor first.clauses ↔
      valuation.IsClosedFor second.clauses := by
  constructor
  · intro closed
    exact closed.of_reordered same.2
  · intro closed
    exact closed.of_reordered same.1

namespace UnitPropagation

variable {clauses : List Clause} {valuation closure : Valuation}
  {forced : Nat} {events : Array Event}

/-- There is only one least closed extension, and propagation finds it. -/
theorem run_eq_consistent_iff :
    (run clauses valuation forced events).result = .consistent closure ↔
      closure.Extends valuation ∧ closure.IsClosedFor clauses ∧
        ∀ other : Valuation, other.Extends valuation →
          other.IsClosedFor clauses → other.Extends closure := by
  constructor
  · intro consistent
    have isClosure := run_isClosureOf consistent
    exact ⟨isClosure.grows, isClosure.closed, isClosure.least⟩
  · rintro ⟨grows, closed, least⟩
    cases found : (run clauses valuation forced events).result with
    | conflict =>
        exact absurd closed (not_closed_of_run_conflict found grows)
    | consistent extended =>
        have isClosure := run_isClosureOf found
        have below := least extended isClosure.grows isClosure.closed
        have above := isClosure.least closure grows closed
        rw [below.antisymm above]

theorem run_eq_conflict_iff :
    (run clauses valuation forced events).result = .conflict ↔
      ¬ ∃ other : Valuation, other.Extends valuation ∧
        other.IsClosedFor clauses := by
  constructor
  · rintro conflict ⟨other, grows, closed⟩
    exact not_closed_of_run_conflict conflict grows closed
  · intro noneClosed
    cases found : (run clauses valuation forced events).result with
    | conflict => rfl
    | consistent closure =>
        have isClosure := run_isClosureOf found
        exact absurd ⟨closure, isClosure.grows, isClosure.closed⟩ noneClosed

end UnitPropagation

namespace Cnf

variable {cnf other : Cnf} {valuation larger closure largerClosure : Valuation}

theorem propagate_eq_consistent_iff :
    cnf.propagate valuation = .consistent closure ↔
      closure.Extends valuation ∧ closure.IsClosedFor cnf.clauses ∧
        ∀ other : Valuation, other.Extends valuation →
          other.IsClosedFor cnf.clauses → other.Extends closure :=
  UnitPropagation.run_eq_consistent_iff

theorem propagate_eq_conflict_iff :
    cnf.propagate valuation = .conflict ↔
      ¬ ∃ other : Valuation, other.Extends valuation ∧
        other.IsClosedFor cnf.clauses :=
  UnitPropagation.run_eq_conflict_iff

theorem exists_propagate_eq_consistent_iff :
    (∃ closure, cnf.propagate valuation = .consistent closure) ↔
      ∃ other : Valuation, other.Extends valuation ∧
        other.IsClosedFor cnf.clauses := by
  constructor
  · rintro ⟨closure, found⟩
    obtain ⟨grows, closed, _⟩ := propagate_eq_consistent_iff.mp found
    exact ⟨closure, grows, closed⟩
  · intro someClosed
    cases found : cnf.propagate valuation with
    | conflict => exact absurd someClosed (propagate_eq_conflict_iff.mp found)
    | consistent closure => exact ⟨closure, rfl⟩

/-- A clause set with the same closed valuations propagates alike. -/
theorem SameClauses.propagate_eq (same : cnf.SameClauses other)
    (valuation : Valuation) :
    other.propagate valuation = cnf.propagate valuation := by
  cases found : cnf.propagate valuation with
  | conflict =>
      rw [propagate_eq_conflict_iff] at found ⊢
      simpa only [same.isClosedFor_iff] using found
  | consistent closure =>
      rw [propagate_eq_consistent_iff] at found ⊢
      simpa only [same.isClosedFor_iff] using found

theorem propagate_closure
    (found : cnf.propagate valuation = .consistent closure) :
    cnf.propagate closure = .consistent closure := by
  obtain ⟨_, closed, _⟩ := propagate_eq_consistent_iff.mp found
  refine propagate_eq_consistent_iff.mpr ⟨.refl closure, closed, ?_⟩
  intro other grows _
  exact grows

theorem propagate_eq_conflict_of_extends (grows : larger.Extends valuation)
    (conflict : cnf.propagate valuation = .conflict) :
    cnf.propagate larger = .conflict := by
  rw [propagate_eq_conflict_iff] at conflict ⊢
  rintro ⟨other, growsOn, closed⟩
  exact conflict ⟨other, growsOn.trans grows, closed⟩

theorem propagate_extends_of_extends (grows : larger.Extends valuation)
    (found : cnf.propagate valuation = .consistent closure)
    (largerFound : cnf.propagate larger = .consistent largerClosure) :
    largerClosure.Extends closure := by
  obtain ⟨_, _, least⟩ := propagate_eq_consistent_iff.mp found
  obtain ⟨growsOn, closed, _⟩ := propagate_eq_consistent_iff.mp largerFound
  exact least largerClosure (growsOn.trans grows) closed

/-- The count of earlier calls does not matter. -/
theorem result_propagate (cnf : Cnf) (valuation : Valuation) (forced : Nat) :
    (unitPropagation.propagate cnf valuation forced).result =
      cnf.propagate valuation := by
  cases found : cnf.propagate valuation with
  | conflict =>
      rw [propagate_eq_conflict_iff] at found
      exact UnitPropagation.run_eq_conflict_iff.mpr found
  | consistent closure =>
      rw [propagate_eq_consistent_iff] at found
      exact UnitPropagation.run_eq_consistent_iff.mpr found

end Cnf

/-- From every count on, propagation finds the least closed extension, or a
conflict exactly where no extension is closed.  The order and the repeats of
clauses and the order of literals have no part in what it finds; a closure is
its own closure; and of two valuations the larger one has the larger closure,
or a conflict. -/
theorem propagation_finds_least_closure (cnf : Cnf) (valuation : Valuation) :
    (∀ forced, (unitPropagation.propagate cnf valuation forced).result =
      cnf.propagate valuation) ∧
    (∀ closure, cnf.propagate valuation = .consistent closure ↔
      closure.Extends valuation ∧ closure.IsClosedFor cnf.clauses ∧
        ∀ other : Valuation, other.Extends valuation →
          other.IsClosedFor cnf.clauses → other.Extends closure) ∧
    ((∃ closure, cnf.propagate valuation = .consistent closure) ↔
      ∃ other : Valuation, other.Extends valuation ∧
        other.IsClosedFor cnf.clauses) ∧
    (cnf.propagate valuation = .conflict ↔
      ¬ ∃ other : Valuation, other.Extends valuation ∧
        other.IsClosedFor cnf.clauses) ∧
    (∀ other : Cnf, cnf.SameClauses other →
      other.propagate valuation = cnf.propagate valuation) ∧
    (∀ closure, cnf.propagate valuation = .consistent closure →
      cnf.propagate closure = .consistent closure) ∧
    ∀ larger : Valuation, larger.Extends valuation →
      (cnf.propagate valuation = .conflict →
        cnf.propagate larger = .conflict) ∧
      ∀ closure largerClosure,
        cnf.propagate valuation = .consistent closure →
        cnf.propagate larger = .consistent largerClosure →
        largerClosure.Extends closure := by
  refine ⟨cnf.result_propagate valuation, ?_, ?_,
    Cnf.propagate_eq_conflict_iff, ?_, ?_, ?_⟩
  · intro closure
    exact Cnf.propagate_eq_consistent_iff
  · exact Cnf.exists_propagate_eq_consistent_iff
  · intro other same
    exact same.propagate_eq valuation
  · intro closure found
    exact Cnf.propagate_closure found
  · intro larger grows
    refine ⟨Cnf.propagate_eq_conflict_of_extends grows, ?_⟩
    intro closure largerClosure found largerFound
    exact Cnf.propagate_extends_of_extends grows found largerFound

end PropSat
