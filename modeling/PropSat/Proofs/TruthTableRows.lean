import Mathlib.Data.List.Perm.Subperm
import Mathlib.Data.Nat.Init
import PropSat.Proofs.Agreement
import PropSat.Proofs.CheckedOutcome
import PropSat.TruthTable

/-!
# The rows of a truth table

A row gives each variable one binary digit of its number, so that every
valuation of the variables is in exactly one row.  What is to hold depends on
these variables alone, hence a table finds a row exactly when there is any
valuation of the variables with what is asked for.  A table is refused
exactly when it has too many variables.
-/

namespace PropSat

theorem NameSet.nodup_toList (names : NameSet) : names.toList.Nodup := by
  have distinct := Std.ExtTreeSet.distinct_toList (t := names)
  refine distinct.imp ?_
  intro first second different same
  exact different (by simp [same])

/-- A set whose names are all in a list has no more of them. -/
theorem NameSet.size_le_length {names : NameSet} {others : List String}
    (subset : ∀ name ∈ names.toList, name ∈ others) :
    names.size ≤ others.length := by
  rw [← Std.ExtTreeSet.length_toList]
  exact (List.subperm_of_subset names.nodup_toList subset).length_le

namespace TruthTable

variable {names : List String} {row : Nat} {target : Target}
  {table : TruthTable}

/-- Whatever is there before, the digit of a name is the one at its
position. -/
theorem get?_extend_digits (nodup : names.Nodup) {index : Nat} {name : String}
    (found : names[index]? = some name) (start : Valuation) (row : Nat) :
    (start.extend
      (names.zipIdx.map fun entry => (entry.1, row.testBit entry.2))).get?
        name = some (row.testBit index) := by
  obtain ⟨inside, _⟩ := List.getElem?_eq_some_iff.mp found
  apply Valuation.get?_extend_of_agree
  · intro given member
    obtain ⟨⟨other, position⟩, isEntry, same⟩ := List.mem_map.mp member
    cases same
    rw [List.mk_mem_zipIdx_iff_getElem?, ← found] at isEntry
    rw [(List.getElem?_inj inside nodup).mp isEntry.symm]
  · left
    exact List.mem_map.mpr
      ⟨(name, index), List.mk_mem_zipIdx_iff_getElem?.mpr found, rfl⟩

theorem get?_rowValuation (nodup : names.Nodup) {index : Nat} {name : String}
    (found : names[index]? = some name) (row : Nat) :
    (rowValuation names row).get? name = some (row.testBit index) :=
  get?_extend_digits nodup found _ row

theorem isTotalOver_rowValuation (nodup : names.Nodup) (row : Nat) :
    (rowValuation names row).isTotalOver names = true := by
  rw [Valuation.isTotalOver_iff]
  intro name member
  obtain ⟨index, found⟩ := List.mem_iff_getElem?.mp member
  rw [Valuation.contains_iff_exists]
  exact ⟨_, get?_rowValuation nodup found row⟩

theorem exists_row (nodup : names.Nodup) {valuation : Valuation}
    (total : valuation.isTotalOver names = true) :
    ∃ row < 2 ^ names.length, ∀ name ∈ names,
      (rowValuation names row).get? name = valuation.get? name := by
  let digit (index : Fin names.length) : Bool :=
    valuation.get? names[index] == some true
  refine ⟨Nat.ofBits digit, Nat.ofBits_lt_two_pow digit, ?_⟩
  intro name member
  obtain ⟨index, found⟩ := List.mem_iff_getElem?.mp member
  obtain ⟨inside, isName⟩ := List.getElem?_eq_some_iff.mp found
  obtain ⟨value, assigned⟩ := Valuation.contains_iff_exists.mp
    (Valuation.isTotalOver_iff.mp total name member)
  rw [get?_rowValuation nodup found, Nat.testBit_ofBits_lt digit index inside,
    assigned]
  simp [digit, isName, assigned]

theorem isSome_firstModel_iff {remaining : Nat} :
    (table.firstModel remaining row).isSome = true ↔
      ∃ offset < remaining,
        table.target.holds (rowValuation table.names (row + offset)) =
          true := by
  induction remaining generalizing row with
  | zero => simp [firstModel]
  | succ remaining induction =>
      rw [firstModel]
      split
      · next holds =>
          refine iff_of_true rfl ⟨0, Nat.succ_pos remaining, ?_⟩
          exact holds
      · next fails =>
          rw [induction]
          constructor
          · rintro ⟨offset, below, holds⟩
            refine ⟨offset + 1, Nat.succ_lt_succ below, ?_⟩
            rwa [Nat.add_right_comm] at holds
          · rintro ⟨offset, below, holds⟩
            cases offset with
            | zero => exact absurd holds fails
            | succ offset =>
                refine ⟨offset, Nat.lt_of_succ_lt_succ below, ?_⟩
                rwa [Nat.add_right_comm]

theorem isSat_solve_iff :
    table.solve.1.isSat = true ↔ ∃ row < 2 ^ table.names.length,
      table.target.holds (rowValuation table.names row) = true := by
  have searched :
      (table.firstModel (Nat.pow 2 table.names.length) 0).isSome = true ↔
        ∃ row < 2 ^ table.names.length,
          table.target.holds (rowValuation table.names row) = true := by
    rw [isSome_firstModel_iff]
    simp
  rw [← searched, solve]
  cases table.firstModel (Nat.pow 2 table.names.length) 0 <;>
    simp [Outcome.isSat]

theorem Target.holds_congr {first second : Valuation}
    (agree : ∀ name ∈ target.vars.toList,
      first.get? name = second.get? name) :
    target.holds first = target.holds second := by
  cases target with
  | formula tree =>
      have same : tree.evaluate first = tree.evaluate second := by
        apply Formula.evaluate_congr
        intro name member
        exact agree name (Formula.mem_vars_iff.mpr member)
      rw [holds, holds, same]
  | cnf set =>
      apply Cnf.isSatisfiedBy_congr
      intro name member
      exact agree name (Cnf.mem_vars_iff.mpr member)

theorem ofTarget_eq_ok (small : target.vars.size ≤ maxVariables) :
    ofTarget target = .ok ⟨target, target.vars.toList, 0⟩ := by
  rw [ofTarget, Std.ExtTreeSet.length_toList, if_neg (by omega)]

theorem ofTarget_eq_error_iff {refusal : TooLarge} :
    ofTarget target = .error refusal ↔
      maxVariables < target.vars.size ∧ refusal = ⟨target.vars.size⟩ := by
  rw [ofTarget, Std.ExtTreeSet.length_toList]
  split
  · next large => simp [large, eq_comm]
  · next small => simp [small]

/-- A table finds a row exactly when there is a valuation. -/
theorem isSat_solve_iff_of_ofTarget (made : ofTarget target = .ok table) :
    table.solve.1.isSat = true ↔ ∃ valuation : Valuation,
      valuation.isTotalOver target.vars.toList = true ∧
        target.holds valuation = true := by
  rw [ofTarget] at made
  split at made
  · cases made
  · cases made
    have nodup := target.vars.nodup_toList
    rw [isSat_solve_iff]
    constructor
    · rintro ⟨row, _, holds⟩
      exact ⟨_, isTotalOver_rowValuation nodup row, holds⟩
    · rintro ⟨valuation, total, holds⟩
      obtain ⟨row, inside, agree⟩ := exists_row nodup total
      refine ⟨row, inside, ?_⟩
      rw [← holds]
      exact Target.holds_congr agree

theorem isSat_solve_iff_of_ofFormula {formula : Formula}
    (made : ofFormula formula = .ok table) :
    table.solve.1.isSat = true ↔ formula.IsSatisfiable := by
  rw [isSat_solve_iff_of_ofTarget made]
  refine exists_congr fun valuation => and_congr_right fun _ => ?_
  rw [Target.holds]
  cases formula.evaluate valuation <;> simp

theorem isSat_solve_iff_of_ofCnf {cnf : Cnf}
    (made : ofCnf cnf = .ok table) :
    table.solve.1.isSat = true ↔ ∃ valuation : Valuation,
      valuation.isTotalOver cnf.vars.toList = true ∧
        cnf.isSatisfiedBy valuation = true :=
  isSat_solve_iff_of_ofTarget made

end TruthTable

end PropSat
