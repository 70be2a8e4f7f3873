import PropSat.Proofs.PropagationCost
import PropSat.Proofs.SearchCounts

/-!
# Searches that are decided at the root

Where propagation from the seed meets a conflict, or assigns every variable
that could be branched on, the search is over before its first decision.  In
the second case the literals forced are as many as the model has assignments
more than the seed, however many passes it took to force them and in whatever
order.
-/

namespace PropSat

namespace UnitPropagation

/-- Each forced literal is one more assignment. -/
theorem run_state_add_size {clauses : List Clause}
    {valuation extended : Valuation} {forced : Nat} {events : Array Event}
    (found : (run clauses valuation forced events).result =
      .consistent extended) :
    (run clauses valuation forced events).state + valuation.size =
      forced + extended.size := by
  obtain ⟨literals, final, gains, counted, _, ends⟩ :=
    run_gains clauses valuation forced events fun _ member => member
  have size := gains.size_eq
  rw [ends extended found, counted, size]
  omega

end UnitPropagation

namespace Problem

variable {cnf : Cnf} {names : List String} {seed model : Valuation}

theorem solved_at_root (found : cnf.propagate seed = .consistent model)
    (total : model.isTotalOver names = true) :
    dpll seed cnf names = .satisfiable model ∧
      cost ⟨cnf, names⟩ seed = ⟨0, model.size - seed.size, 0, 0⟩ := by
  have explored : Search.Explores unitPropagation ⟨cnf, names⟩ 0 seed
      (.start 0) (.satisfiable model) _ :=
    .model found (Search.nextVariable_eq_none_iff.mpr total)
  have answered : Search.solveFrom unitPropagation unitPropagation_isMonotone
      ⟨cnf, names⟩ seed (.start 0) = _ :=
    Search.solveFrom_eq_of_explores _ explored
  have forced : (unitPropagation.propagate cnf seed 0).state =
      model.size - seed.size := by
    have grown := UnitPropagation.run_state_add_size found
    change (unitPropagation.propagate cnf seed 0).state + seed.size =
      0 + model.size at grown
    omega
  refine ⟨congrArg Prod.fst answered, ?_⟩
  rw [cost, Problem.solveFrom, answered, ← forced]
  rfl

theorem refuted_at_root (conflict : cnf.propagate seed = .conflict) :
    dpll seed cnf names = .unsatisfiable ∧
      ∃ forced, cost ⟨cnf, names⟩ seed = ⟨0, forced, 1, 0⟩ := by
  have explored : Search.Explores unitPropagation ⟨cnf, names⟩ 0 seed
      (.start 0) .unsatisfiable _ := .conflict conflict
  have answered : Search.solveFrom unitPropagation unitPropagation_isMonotone
      ⟨cnf, names⟩ seed (.start 0) = _ :=
    Search.solveFrom_eq_of_explores _ explored
  refine ⟨congrArg Prod.fst answered,
    (unitPropagation.propagate cnf seed 0).state, ?_⟩
  rw [cost, Problem.solveFrom, answered]
  rfl

theorem solved_by_least_closed (closed : model.IsClosedFor cnf.clauses)
    (least : ∀ other : Valuation, other.IsClosedFor cnf.clauses →
      other.Extends model)
    (total : model.isTotalOver names = true) :
    dpll ∅ cnf names = .satisfiable model ∧
      cost ⟨cnf, names⟩ ∅ = ⟨0, model.size, 0, 0⟩ := by
  apply solved_at_root _ total
  apply Cnf.propagate_eq_consistent_iff.mpr
  exact ⟨model.extends_empty, closed, fun other _ => least other⟩

theorem refuted_without_closed
    (none : ∀ other : Valuation, ¬ other.IsClosedFor cnf.clauses)
    (names : List String) :
    dpll ∅ cnf names = .unsatisfiable ∧
      ∃ forced, cost ⟨cnf, names⟩ ∅ = ⟨0, forced, 1, 0⟩ := by
  apply refuted_at_root
  apply Cnf.propagate_eq_conflict_iff.mpr
  rintro ⟨other, _, closed⟩
  exact none other closed

end Problem

end PropSat
