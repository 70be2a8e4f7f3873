import PropSat.Proofs.CountingClauses
import PropSat.Proofs.LeastClosure
import PropSat.Proofs.PolarityTranslation

/-!
# Valuations that are closed for a formula

Propagation over the clauses of a formula looks for valuations that are closed
for them.  What this asks can be read off the formula: a conjunction asks for
what its operands ask for, a literal to be true, and an equivalence of two
literals that both are unassigned or have the same value.  In all cases a
valuation that satisfies the clauses is closed.
-/

namespace PropSat

variable {valuation : Valuation}

namespace Formula

theorem isClosedFor_conj_iff {operands : List Formula} :
    valuation.IsClosedFor (conj operands).clauses.clauses ↔
      ∀ operand ∈ operands,
        valuation.IsClosedFor operand.clauses.clauses := by
  rw [clauses_conj, Cnf.conjoin, Valuation.IsClosedFor]
  simp only [List.forall_mem_flatMap, List.forall_mem_map]
  rfl

theorem isClosedFor_of_kleene? {formula : Formula}
    (holds : formula.kleene? valuation = some true) :
    valuation.IsClosedFor formula.clauses.clauses :=
  .of_isSatisfiedBy (isSatisfiedBy_clauses_iff.mpr holds)

theorem kleene?_iff_eq_some_true_iff {first second : Formula} :
    (iff first second).kleene? valuation = some true ↔
      ∃ value, first.kleene? valuation = some value ∧
        second.kleene? valuation = some value := by
  simp only [iff, implies, kleene?, kleeneAll?, kleeneAny?]
  generalize first.kleene? valuation = firstValue
  generalize second.kleene? valuation = secondValue
  revert firstValue secondValue
  decide

end Formula

namespace Literal

theorem clauses_formula (literal : Literal) :
    literal.formula.clauses = .unit literal := by
  rw [Formula.clauses_eq_polarityClauses, polarityClauses_formula, if_pos rfl]

theorem kleene?_formula (literal : Literal) :
    literal.formula.kleene? valuation = literal.value? valuation := by
  rw [← Formula.value?_clauses, clauses_formula, Cnf.value?_unit]

/-- A clause of one literal is never undetermined. -/
theorem isClosedFor_formula_iff {literal : Literal} :
    valuation.IsClosedFor literal.formula.clauses.clauses ↔
      literal.value? valuation = some true := by
  rw [clauses_formula, Cnf.unit, Valuation.IsClosedFor,
    List.forall_mem_singleton, Clause.status, Clause.unit]
  simp only [Clause.statusOf]
  rcases literal.value? valuation with _ | _ | _ <;> simp

theorem clauses_iff_formula (left right : Literal) :
    (Formula.iff left.formula right.formula).clauses =
      ⟨[⟨[left.negated, right]⟩, ⟨[right.negated, left]⟩]⟩ := by
  have implication (first second : Literal) :
      (Formula.implies first.formula second.formula).clauses =
        ⟨[⟨[first.negated, second]⟩]⟩ := by
    rw [Formula.implies, Formula.clauses_disj]
    simp only [List.map_cons, List.map_nil, Formula.clauses_neg,
      polarityClauses_formula, clauses_formula]
    exact Cnf.disjoin_map_unit [first.negated, second]
  rw [Formula.iff, Formula.clauses_conj]
  simp only [List.map_cons, List.map_nil, implication]
  rfl

/-- Once one of the two literals has a value, one of the two clauses gives it
to the other one. -/
theorem isClosedFor_iff_formula_iff {left right : Literal} :
    valuation.IsClosedFor
        (Formula.iff left.formula right.formula).clauses.clauses ↔
      left.value? valuation = right.value? valuation := by
  rw [clauses_iff_formula, Valuation.IsClosedFor, List.forall_mem_cons,
    List.forall_mem_singleton]
  simp only [Clause.status, Clause.statusOf, value?_negated]
  rcases left.value? valuation with _ | _ | _ <;>
    rcases right.value? valuation with _ | _ | _ <;> simp

end Literal

end PropSat
