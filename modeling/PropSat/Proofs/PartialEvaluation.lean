import PropSat.Proofs.Agreement

/-!
# Evaluation where atoms are missing

An evaluation that fails names an atom of the formula that has no value.  When
more atoms get values it goes the same way, from left to right, up to its
result or up to the missing atom: every operand that it has looked at has the
result that it had.  So only an assignment to the atom that is named can
change a failure, and nothing can change a value.
-/

namespace PropSat

/-- Nothing that the result depends on is missing only in a smaller
valuation: the atom of a failure is still unassigned. -/
def Valuation.Settles (valuation : Valuation) :
    Except UnassignedVariable Bool → Prop
  | .ok _ => True
  | .error failure => valuation.contains failure.name = false

namespace Formula

variable {valuation larger smaller : Valuation}

mutual

/-- Values that are added do not change the way to a settled result. -/
theorem evaluate_of_settles (grows : larger.Extends smaller)
    (formula : Formula)
    (settled : larger.Settles (formula.evaluate smaller)) :
    formula.evaluate larger = formula.evaluate smaller := by
  cases formula with
  | const value => rw [evaluate, evaluate]
  | atom name =>
      rw [evaluate] at settled ⊢
      rw [evaluate]
      cases assigned : smaller.get? name with
      | some value => rw [grows name value assigned]
      | none =>
          rw [assigned] at settled
          rw [Valuation.contains_eq_false_iff.mp settled]
  | neg operand =>
      rw [evaluate] at settled ⊢
      rw [evaluate, evaluate_of_settles grows operand]
      cases result : operand.evaluate smaller with
      | ok value => trivial
      | error failure => simpa only [result] using settled
  | conj operands =>
      rw [evaluate] at settled ⊢
      rw [evaluate, evaluateAll_of_settles grows operands settled]
  | disj operands =>
      rw [evaluate] at settled ⊢
      rw [evaluate, evaluateAny_of_settles grows operands settled]

theorem evaluateAll_of_settles (grows : larger.Extends smaller)
    (operands : List Formula)
    (settled : larger.Settles (evaluateAll smaller operands)) :
    evaluateAll larger operands = evaluateAll smaller operands := by
  cases operands with
  | nil => rw [evaluateAll, evaluateAll]
  | cons operand rest =>
      have first := evaluate_of_settles grows operand
      rw [evaluateAll] at settled ⊢
      rw [evaluateAll]
      cases result : operand.evaluate smaller with
      | ok value =>
          rw [result] at settled first
          rw [first trivial]
          cases value with
          | true => exact evaluateAll_of_settles grows rest settled
          | false => rfl
      | error failure =>
          rw [result] at settled first
          rw [first settled]

theorem evaluateAny_of_settles (grows : larger.Extends smaller)
    (operands : List Formula)
    (settled : larger.Settles (evaluateAny smaller operands)) :
    evaluateAny larger operands = evaluateAny smaller operands := by
  cases operands with
  | nil => rw [evaluateAny, evaluateAny]
  | cons operand rest =>
      have first := evaluate_of_settles grows operand
      rw [evaluateAny] at settled ⊢
      rw [evaluateAny]
      cases result : operand.evaluate smaller with
      | ok value =>
          rw [result] at settled first
          rw [first trivial]
          cases value with
          | true => rfl
          | false => exact evaluateAny_of_settles grows rest settled
      | error failure =>
          rw [result] at settled first
          rw [first settled]

end

mutual

/-- The atom of a failure occurs in the formula, and it is missing. -/
theorem missing_of_evaluate_error (formula : Formula)
    {failure : UnassignedVariable}
    (failed : formula.evaluate valuation = .error failure) :
    failure.name ∈ formula.atoms ∧
      valuation.contains failure.name = false := by
  cases formula with
  | const value =>
      rw [evaluate] at failed
      cases failed
  | atom name =>
      rw [evaluate] at failed
      cases assigned : valuation.get? name with
      | some value =>
          rw [assigned] at failed
          cases failed
      | none =>
          rw [assigned] at failed
          cases failed
          exact ⟨by simp [atoms],
            Valuation.contains_eq_false_iff.mpr assigned⟩
  | neg operand =>
      rw [evaluate] at failed
      cases result : operand.evaluate valuation with
      | ok value =>
          rw [result] at failed
          cases failed
      | error given =>
          rw [result] at failed
          cases failed
          exact missing_of_evaluate_error operand result
  | conj operands =>
      rw [evaluate] at failed
      exact missing_of_evaluateAll_error operands failed
  | disj operands =>
      rw [evaluate] at failed
      exact missing_of_evaluateAny_error operands failed

theorem missing_of_evaluateAll_error (operands : List Formula)
    {failure : UnassignedVariable}
    (failed : evaluateAll valuation operands = .error failure) :
    failure.name ∈ atomsList operands ∧
      valuation.contains failure.name = false := by
  cases operands with
  | nil => cases failed
  | cons operand rest =>
      rw [evaluateAll] at failed
      split at failed
      · obtain ⟨occurs, missing⟩ :=
          missing_of_evaluateAll_error rest failed
        exact ⟨List.mem_append_right _ occurs, missing⟩
      · cases failed
      · next given result =>
          cases failed
          obtain ⟨occurs, missing⟩ :=
            missing_of_evaluate_error operand result
          exact ⟨List.mem_append_left _ occurs, missing⟩

theorem missing_of_evaluateAny_error (operands : List Formula)
    {failure : UnassignedVariable}
    (failed : evaluateAny valuation operands = .error failure) :
    failure.name ∈ atomsList operands ∧
      valuation.contains failure.name = false := by
  cases operands with
  | nil => cases failed
  | cons operand rest =>
      rw [evaluateAny] at failed
      split at failed
      · cases failed
      · obtain ⟨occurs, missing⟩ :=
          missing_of_evaluateAny_error rest failed
        exact ⟨List.mem_append_right _ occurs, missing⟩
      · next given result =>
          cases failed
          obtain ⟨occurs, missing⟩ :=
            missing_of_evaluate_error operand result
          exact ⟨List.mem_append_left _ occurs, missing⟩

end

theorem exists_evaluate_of_isTotalOver {formula : Formula}
    (total : valuation.isTotalOver formula.vars.toList = true) :
    ∃ value, formula.evaluate valuation = .ok value := by
  cases result : formula.evaluate valuation with
  | ok value => exact ⟨value, rfl⟩
  | error failure =>
      obtain ⟨occurs, missing⟩ := missing_of_evaluate_error formula result
      have assigned := Valuation.isTotalOver_iff.mp total failure.name
        (mem_vars_iff.mpr occurs)
      rw [missing] at assigned
      cases assigned

/-- A value that is found stays under every larger valuation.  A failure names
an atom of the formula that is missing, and stays, with the same name, as long
as that atom is missing.  A total valuation leads to no failure, and the
result depends on the variables of the formula alone. -/
theorem evaluation_monotone (formula : Formula) :
    (∀ larger smaller value, larger.Extends smaller →
      formula.evaluate smaller = .ok value →
      formula.evaluate larger = .ok value) ∧
    (∀ smaller name, formula.evaluate smaller = .error ⟨name⟩ →
      name ∈ formula.atoms ∧ smaller.contains name = false ∧
      ∀ larger, larger.Extends smaller → larger.contains name = false →
        formula.evaluate larger = .error ⟨name⟩) ∧
    (∀ valuation, valuation.isTotalOver formula.vars.toList = true →
      ∃ value, formula.evaluate valuation = .ok value) ∧
    ∀ first second : Valuation,
      (∀ name ∈ formula.vars.toList, first.get? name = second.get? name) →
      formula.evaluate first = formula.evaluate second := by
  refine ⟨?_, ?_, fun valuation => exists_evaluate_of_isTotalOver, ?_⟩
  · intro larger smaller value grows found
    rw [← found]
    apply evaluate_of_settles grows
    rw [found]
    trivial
  · intro smaller name failed
    obtain ⟨occurs, missing⟩ := missing_of_evaluate_error formula failed
    refine ⟨occurs, missing, ?_⟩
    intro larger grows stillMissing
    rw [← failed]
    apply evaluate_of_settles grows
    rw [failed]
    exact stillMissing
  · intro first second agree
    apply evaluate_congr
    intro name occurs
    exact agree name (mem_vars_iff.mpr occurs)

end Formula

end PropSat
