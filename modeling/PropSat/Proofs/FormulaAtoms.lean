import PropSat.Formula.Basic

/-!
# The atoms of a formula

An atom occurs in a conjunction or a disjunction exactly when it occurs in one
of the operands, and the variables of a formula are its atoms.
-/

namespace PropSat.Formula

theorem atomsList_eq_flatMap (operands : List Formula) :
    atomsList operands = operands.flatMap atoms := by
  induction operands with
  | nil => rfl
  | cons operand rest induction =>
      rw [atomsList, induction, List.flatMap_cons]

theorem mem_atomsList_iff {operands : List Formula} {name : String} :
    name ∈ atomsList operands ↔
      ∃ operand ∈ operands, name ∈ operand.atoms := by
  rw [atomsList_eq_flatMap, List.mem_flatMap]

theorem mem_atoms_conj_iff {operands : List Formula} {name : String} :
    name ∈ (conj operands).atoms ↔
      ∃ operand ∈ operands, name ∈ operand.atoms := by
  rw [atoms, mem_atomsList_iff]

theorem mem_atoms_disj_iff {operands : List Formula} {name : String} :
    name ∈ (disj operands).atoms ↔
      ∃ operand ∈ operands, name ∈ operand.atoms := by
  rw [atoms, mem_atomsList_iff]

theorem mem_vars_iff {formula : Formula} {name : String} :
    name ∈ formula.vars.toList ↔ name ∈ formula.atoms :=
  NameSet.mem_toList_ofList

theorem mem_vars_iff_mem_atoms {formula : Formula} {name : String} :
    name ∈ formula.vars ↔ name ∈ formula.atoms := by
  rw [← Std.ExtTreeSet.mem_toList, mem_vars_iff]

end PropSat.Formula
