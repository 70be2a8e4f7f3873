import PropSat.Formula.Evaluation
import PropSat.Proofs.Extension
import PropSat.Proofs.FormulaAtoms

/-!
# Values depend on the variables alone

Two valuations that agree on the variables of a clause set or of a formula
give it the same value, whatever else they assign.  For a formula this is so
of the failures as well: they name the same atom.
-/

namespace PropSat

variable {first second : Valuation}

theorem Literal.value?_congr {literal : Literal}
    (agree : first.get? literal.name = second.get? literal.name) :
    literal.value? first = literal.value? second := by
  rw [value?, value?, agree]

theorem Clause.isSatisfiedBy_congr {clause : Clause}
    (agree : ∀ name ∈ clause.names, first.get? name = second.get? name) :
    clause.isSatisfiedBy first = clause.isSatisfiedBy second := by
  rw [Bool.eq_iff_iff, isSatisfiedBy_iff, isSatisfiedBy_iff]
  refine exists_congr fun literal => and_congr_right fun member => ?_
  have mentioned : literal.name ∈ clause.names :=
    List.mem_map.mpr ⟨literal, member, rfl⟩
  rw [Literal.value?_congr (agree literal.name mentioned)]

theorem Cnf.isSatisfiedBy_congr {cnf : Cnf}
    (agree : ∀ name ∈ cnf.names, first.get? name = second.get? name) :
    cnf.isSatisfiedBy first = cnf.isSatisfiedBy second := by
  rw [Bool.eq_iff_iff, isSatisfiedBy_iff, isSatisfiedBy_iff]
  refine forall_congr' fun clause => forall_congr' fun member => ?_
  rw [Clause.isSatisfiedBy_congr]
  intro name inClause
  exact agree name (List.mem_flatMap.mpr ⟨clause, member, inClause⟩)

namespace Formula

mutual

theorem evaluate_congr (formula : Formula)
    (agree : ∀ name ∈ formula.atoms, first.get? name = second.get? name) :
    formula.evaluate first = formula.evaluate second := by
  cases formula with
  | const value => rw [evaluate, evaluate]
  | atom name =>
      have here := agree name (by simp [atoms])
      rw [evaluate, evaluate, here]
  | neg operand =>
      rw [atoms] at agree
      rw [evaluate, evaluate, evaluate_congr operand agree]
  | conj operands =>
      rw [atoms] at agree
      rw [evaluate, evaluate, evaluateAll_congr operands agree]
  | disj operands =>
      rw [atoms] at agree
      rw [evaluate, evaluate, evaluateAny_congr operands agree]

theorem evaluateAll_congr (operands : List Formula)
    (agree : ∀ name ∈ atomsList operands,
      first.get? name = second.get? name) :
    evaluateAll first operands = evaluateAll second operands := by
  cases operands with
  | nil => rw [evaluateAll, evaluateAll]
  | cons operand rest =>
      rw [atomsList, List.forall_mem_append] at agree
      obtain ⟨here, later⟩ := agree
      rw [evaluateAll, evaluateAll, evaluate_congr operand here,
        evaluateAll_congr rest later]

theorem evaluateAny_congr (operands : List Formula)
    (agree : ∀ name ∈ atomsList operands,
      first.get? name = second.get? name) :
    evaluateAny first operands = evaluateAny second operands := by
  cases operands with
  | nil => rw [evaluateAny, evaluateAny]
  | cons operand rest =>
      rw [atomsList, List.forall_mem_append] at agree
      obtain ⟨here, later⟩ := agree
      rw [evaluateAny, evaluateAny, evaluate_congr operand here,
        evaluateAny_congr rest later]

end

end Formula

end PropSat
