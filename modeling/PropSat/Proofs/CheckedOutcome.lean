import PropSat.Proofs.Candidates
import PropSat.Proofs.ClauseMeaning
import PropSat.Verification

/-!
# Checking the answer of the search

The search over the clause form of a formula answers for the formula: a model
of it passes every check, and there is one exactly when some valuation of all
variables makes the formula true.  All of this holds for any candidates that
cover the formula, in any order.
-/

namespace PropSat

/-- A model that no check rejects. -/
structure Formula.IsConfirmedBy (formula : Formula) (names : List String)
    (model : Valuation) : Prop where
  total : model.isTotalOver names = true
  satisfied : formula.clauses.isSatisfiedBy model = true
  holds : formula.evaluate model = .ok true

/-- The formula has a valuation of all its variables that makes it true. -/
def Formula.IsSatisfiable (formula : Formula) : Prop :=
  ∃ valuation : Valuation,
    valuation.isTotalOver formula.vars.toList = true ∧
      formula.evaluate valuation = .ok true

variable {formula : Formula} {candidates names : List String}
  {model : Valuation}

theorem verify_eq_confirmed (confirmed : formula.IsConfirmedBy names model) :
    verify formula formula.clauses names (.satisfiable model) =
      .ok .confirmed := by
  simp [verify, confirmed.total, confirmed.satisfied, confirmed.holds]

namespace Formula.IsCoveredBy

/-- What the search finds for a formula, with the candidates arranged. -/
theorem isConfirmedBy_dpll (covered : formula.IsCoveredBy candidates)
    {order : VariableOrder}
    (found : dpll ∅ formula.clauses (order.arrange candidates) =
      .satisfiable model) :
    formula.IsConfirmedBy (order.arrange candidates) model := by
  have total := dpll_isTotalOver found
  have satisfied := dpll_isSatisfiedBy (covered.isCovered order ∅) found
  have agrees := evaluate_eq_isSatisfiedBy (covered.isTotalOver_vars total)
  exact ⟨total, satisfied, by rw [agrees, satisfied]⟩

theorem exists_verify_eq_ok (covered : formula.IsCoveredBy candidates)
    (order : VariableOrder) :
    ∃ finding, verify formula formula.clauses (order.arrange candidates)
      (dpll ∅ formula.clauses (order.arrange candidates)) = .ok finding := by
  cases answer : dpll ∅ formula.clauses (order.arrange candidates) with
  | satisfiable model =>
      exact ⟨_, verify_eq_confirmed (covered.isConfirmedBy_dpll answer)⟩
  | unsatisfiable => exact ⟨.nothingToCheck, rfl⟩

theorem isSat_dpll_iff (covered : formula.IsCoveredBy candidates)
    (order : VariableOrder) :
    (dpll ∅ formula.clauses (order.arrange candidates)).isSat = true ↔
      formula.IsSatisfiable := by
  constructor
  · intro isSat
    cases answer : dpll ∅ formula.clauses (order.arrange candidates) with
    | satisfiable model =>
        have confirmed := covered.isConfirmedBy_dpll answer
        exact ⟨model, covered.isTotalOver_vars confirmed.total,
          confirmed.holds⟩
    | unsatisfiable => simp [answer, Outcome.isSat] at isSat
  · rintro ⟨valuation, _, holds⟩
    rw [dpll_isSat_iff (covered.isCovered order ∅)]
    exact ⟨valuation, valuation.extends_empty,
      isSatisfiedBy_of_evaluate holds⟩

end Formula.IsCoveredBy

end PropSat
