import Mathlib.Algebra.Ring.Parity
import PropSat.Proofs.ClauseMeaning
import PropSat.Proofs.FormulaAtoms

/-!
# Pushing negations inwards

Pushing a negation into a formula twice does not give the formula back: the
operands keep a double negation each.  All that is read off a formula is the
same as before, though.  One push flips the value that evaluation finds, in
the order in which it looks at the atoms, and exchanges the clauses of the
formula with those of its negation.  Flipping is an involution, so only the
parity of the number of pushes is left.
-/

namespace PropSat

namespace Formula

variable {valuation : Valuation}

/-- The negation of what an evaluation found; a failure stays as it is. -/
def flipValue (result : Except UnassignedVariable Bool) :
    Except UnassignedVariable Bool :=
  result.map (!·)

theorem flipValue_involutive : Function.Involutive flipValue := by
  intro result
  cases result with
  | error failure => rfl
  | ok value => simp [flipValue, Except.map]

theorem evaluate_neg (operand : Formula) :
    (neg operand).evaluate valuation =
      flipValue (operand.evaluate valuation) := by
  rw [evaluate]
  cases operand.evaluate valuation <;> rfl

/-- The first operand that is false is the first one whose negation is
true. -/
theorem evaluateAny_map_neg (operands : List Formula) :
    evaluateAny valuation (operands.map neg) =
      flipValue (evaluateAll valuation operands) := by
  induction operands with
  | nil => rfl
  | cons operand rest induction =>
      rw [List.map_cons, evaluateAny, evaluateAll, evaluate_neg, induction]
      cases operand.evaluate valuation with
      | error failure => rfl
      | ok value => cases value <;> rfl

theorem evaluateAll_map_neg (operands : List Formula) :
    evaluateAll valuation (operands.map neg) =
      flipValue (evaluateAny valuation operands) := by
  induction operands with
  | nil => rfl
  | cons operand rest induction =>
      rw [List.map_cons, evaluateAll, evaluateAny, evaluate_neg, induction]
      cases operand.evaluate valuation with
      | error failure => rfl
      | ok value => cases value <;> rfl

theorem evaluate_pushNegation (formula : Formula) :
    formula.pushNegation.evaluate valuation =
      flipValue (formula.evaluate valuation) := by
  cases formula with
  | const value => rfl
  | atom name => exact evaluate_neg (.atom name)
  | neg operand => rw [pushNegation, evaluate_neg, flipValue_involutive]
  | conj operands =>
      rw [pushNegation, evaluate, evaluate, evaluateAny_map_neg]
  | disj operands =>
      rw [pushNegation, evaluate, evaluate, evaluateAll_map_neg]

/-- The clauses of a formula for both polarities, exchanged. -/
def exchangePolarity (translation : Bool → Cnf) (positive : Bool) : Cnf :=
  translation !positive

theorem exchangePolarity_involutive :
    Function.Involutive exchangePolarity := by
  intro translation
  funext positive
  rw [exchangePolarity, exchangePolarity, Bool.not_not]

theorem atomsList_map_neg (operands : List Formula) :
    atomsList (operands.map neg) = atomsList operands := by
  induction operands with
  | nil => rfl
  | cons operand rest induction =>
      rw [List.map_cons, atomsList, atomsList, atoms, induction]

theorem atoms_pushNegation (formula : Formula) :
    formula.pushNegation.atoms = formula.atoms := by
  cases formula with
  | const value => rfl
  | atom name => rfl
  | neg operand => rfl
  | conj operands => rw [pushNegation, atoms, atoms, atomsList_map_neg]
  | disj operands => rw [pushNegation, atoms, atoms, atomsList_map_neg]

section Iterates

variable {α : Type} {reading : Formula → α} {flip : α → α} {times : Nat}

/-- What one push flips is flipped by any number of pushes as often as there
are pushes. -/
theorem reading_iterate_of_even
    (step : Function.Semiconj reading pushNegation flip)
    (involutive : Function.Involutive flip) (even : Even times)
    (formula : Formula) :
    reading (pushNegation^[times] formula) = reading formula := by
  rw [(step.iterate_right times).eq, involutive.iterate_even even, id]

theorem reading_iterate_of_odd
    (step : Function.Semiconj reading pushNegation flip)
    (involutive : Function.Involutive flip) (odd : Odd times)
    (formula : Formula) :
    reading (pushNegation^[times] formula) = flip (reading formula) := by
  rw [(step.iterate_right times).eq, involutive.iterate_odd odd]

end Iterates

theorem varsInOrder_iterate_pushNegation (times : Nat) (formula : Formula) :
    (pushNegation^[times] formula).varsInOrder = formula.varsInOrder := by
  have step : Function.Semiconj atoms pushNegation id := atoms_pushNegation
  have same := (step.iterate_right times).eq formula
  rw [Function.iterate_id, id] at same
  rw [varsInOrder, varsInOrder, same]

/-- After an even number of pushes evaluation and clause form are those of
the formula, after an odd number those of its negation; evaluation fails at
the same atom, and the variables stand in the same order. -/
theorem pushed_negations_keep_meaning (formula : Formula) (times : Nat) :
    (Even times →
      (∀ valuation, (pushNegation^[times] formula).evaluate valuation =
        formula.evaluate valuation) ∧
      (pushNegation^[times] formula).clauses = formula.clauses) ∧
    (Odd times →
      (∀ valuation, (pushNegation^[times] formula).evaluate valuation =
        (neg formula).evaluate valuation) ∧
      (pushNegation^[times] formula).clauses = (neg formula).clauses) ∧
    (pushNegation^[times] formula).varsInOrder = formula.varsInOrder := by
  have values (valuation : Valuation) :
      Function.Semiconj (evaluate valuation) pushNegation flipValue :=
    evaluate_pushNegation
  have translations : Function.Semiconj
      (fun given positive => polarityClauses positive given) pushNegation
      exchangePolarity := by
    intro given
    funext positive
    exact polarityClauses_pushNegation positive given
  simp only [clauses_eq_polarityClauses]
  refine ⟨fun even => ⟨?_, ?_⟩, fun odd => ⟨?_, ?_⟩,
    varsInOrder_iterate_pushNegation times formula⟩
  · intro valuation
    exact reading_iterate_of_even (values valuation) flipValue_involutive even
      formula
  · have same := reading_iterate_of_even translations
      exchangePolarity_involutive even formula
    exact congrFun same true
  · intro valuation
    rw [evaluate_neg]
    exact reading_iterate_of_odd (values valuation) flipValue_involutive odd
      formula
  · have same := reading_iterate_of_odd translations
      exchangePolarity_involutive odd formula
    rw [polarityClauses]
    exact congrFun same true

/-- Two pushes leave a double negation at every operand. -/
example : (conj [.atom "a"]).pushNegation.pushNegation =
    .conj [.neg (.neg (.atom "a"))] := rfl

end Formula

end PropSat
