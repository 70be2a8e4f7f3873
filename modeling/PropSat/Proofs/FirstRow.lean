import Mathlib.Algebra.GroupWithZero.Nat
import Mathlib.Logic.Function.Iterate
import PropSat.Proofs.ByteOrder
import PropSat.Proofs.TruthTableRows

/-!
# The first row of a truth table with a model

The digits of a row number are the values of the variables, so that rows and
total valuations are two ways to say the same, and the first row in which the
target holds is the least of all models.  A table that is searched again looks
at the same rows again.

The search need not make a valuation for each row.  It can keep one that
assigns exactly the variables of the table and write the digits of each row
over those of the row before: nothing of the old row stays.
-/

namespace PropSat

/-- The valuation has values for the names of the list and for no others. -/
def Valuation.IsOver (valuation : Valuation) (names : List String) : Prop :=
  ∀ name, valuation.contains name = true ↔ name ∈ names

theorem Outcome.isSat_iff {outcome : Outcome} :
    outcome.isSat = true ↔ ∃ model, outcome = .satisfiable model := by
  cases outcome <;> simp [isSat]

theorem Outcome.eq_unsatisfiable_iff {outcome : Outcome} :
    outcome = .unsatisfiable ↔ outcome.isSat = false := by
  cases outcome <;> simp [isSat]

namespace TruthTable

/-- The number of the row that has the values of a valuation. -/
def rowNumber (names : List String) (valuation : Valuation) : Nat :=
  (names.zipIdx.map fun entry =>
    if valuation.get? entry.1 = some true then 2 ^ entry.2 else 0).sum

def rowsSearched (names : List String) : Outcome → Nat
  | .satisfiable model => rowNumber names model + 1
  | .unsatisfiable => 2 ^ names.length

/-- Writes the digits of a row into a valuation, but only over values that
are there. -/
def overwriteRow (names : List String) (row : Nat) (valuation : Valuation) :
    Valuation :=
  names.zipIdx.foldl (fun current entry =>
    if current.contains entry.1 then
      current.assign entry.1 (row.testBit entry.2)
    else current) valuation

/-- The first of `remaining` rows from `row` on in which the target holds,
each written over the one before. -/
def firstModelInPlace (table : TruthTable) :
    (remaining row : Nat) → Valuation → Option (Nat × Valuation)
  | 0, _, _ => none
  | remaining + 1, row, valuation =>
      let current := overwriteRow table.names row valuation
      if table.target.holds current then some (row, current)
      else firstModelInPlace table remaining (row + 1) current

/-- The search that keeps one valuation, at first with all variables false. -/
def solveInPlace (table : TruthTable) : Outcome × TruthTable :=
  let size := 2 ^ table.names.length
  let start := Valuation.ofList (table.names.map fun name => (name, false))
  match table.firstModelInPlace size 0 start with
  | some (row, model) =>
      (.satisfiable model, { table with rows := table.rows + row + 1 })
  | none => (.unsatisfiable, { table with rows := table.rows + size })

variable {names : List String} {valuation : Valuation} {table : TruthTable}
  {row remaining index : Nat} {model : Valuation}

theorem sum_zipIdx_succ (names : List String) (start : Nat)
    (holds : String → Prop) [DecidablePred holds] :
    ((names.zipIdx (start + 1)).map fun entry =>
        if holds entry.1 then 2 ^ entry.2 else 0).sum =
      2 * ((names.zipIdx start).map fun entry =>
        if holds entry.1 then 2 ^ entry.2 else 0).sum := by
  induction names generalizing start with
  | nil => rfl
  | cons name rest ih =>
      simp only [List.zipIdx_cons, List.map_cons, List.sum_cons, ih]
      split
      · rw [pow_succ]
        omega
      · omega

theorem rowNumber_cons (name : String) (rest : List String)
    (valuation : Valuation) :
    rowNumber (name :: rest) valuation =
      (if valuation.get? name = some true then 1 else 0) +
        2 * rowNumber rest valuation := by
  have shifted := sum_zipIdx_succ rest 0
    fun other => valuation.get? other = some true
  simp only [rowNumber, List.zipIdx_cons, List.map_cons, List.sum_cons,
    pow_zero]
  rw [← shifted]

theorem rowNumber_lt (names : List String) (valuation : Valuation) :
    rowNumber names valuation < 2 ^ names.length := by
  induction names with
  | nil => simp [rowNumber]
  | cons name rest ih =>
      rw [rowNumber_cons, List.length_cons, pow_succ]
      split <;> omega

theorem testBit_rowNumber {name : String}
    (found : names[index]? = some name) (valuation : Valuation) :
    (rowNumber names valuation).testBit index =
      (valuation.get? name == some true) := by
  induction names generalizing index with
  | nil => simp at found
  | cons first rest ih =>
      rw [rowNumber_cons]
      cases index with
      | zero =>
          cases found
          rw [Nat.testBit_zero]
          by_cases isTrue : valuation.get? name = some true <;>
            simp [isTrue, Nat.add_mod]
      | succ index =>
          rw [List.getElem?_cons_succ] at found
          rw [Nat.testBit_succ, ← ih found]
          congr 1
          split <;> omega

theorem get?_rowValuation_rowNumber (nodup : names.Nodup)
    (total : valuation.isTotalOver names = true) {name : String}
    (member : name ∈ names) :
    (rowValuation names (rowNumber names valuation)).get? name =
      valuation.get? name := by
  obtain ⟨index, found⟩ := List.mem_iff_getElem?.mp member
  obtain ⟨value, assigned⟩ := Valuation.contains_iff_exists.mp
    (Valuation.isTotalOver_iff.mp total name member)
  rw [get?_rowValuation nodup found, testBit_rowNumber found, assigned]
  cases value <;> rfl

theorem rowNumber_rowValuation (nodup : names.Nodup)
    (inside : row < 2 ^ names.length) :
    rowNumber names (rowValuation names row) = row := by
  apply Nat.eq_of_testBit_eq
  intro index
  by_cases digit : index < names.length
  · have found := List.getElem?_eq_getElem digit
    rw [testBit_rowNumber found, get?_rowValuation nodup found]
    cases row.testBit index <;> rfl
  · have above : 2 ^ names.length ≤ 2 ^ index :=
      Nat.pow_le_pow_right Nat.two_pos (Nat.le_of_not_lt digit)
    rw [Nat.testBit_lt_two_pow (inside.trans_le above),
      Nat.testBit_lt_two_pow ((rowNumber_lt names _).trans_le above)]

/-- Over a valuation without other names the digits are all there is. -/
theorem contains_extend_digits_iff {name : String}
    (confined : valuation.contains name = true → name ∈ names) (row : Nat) :
    (valuation.extend
      (names.zipIdx.map fun entry => (entry.1, row.testBit entry.2))).contains
        name = true ↔ name ∈ names := by
  rw [Valuation.contains_extend_iff]
  constructor
  · rintro (⟨value, isPair⟩ | assigned)
    · obtain ⟨⟨other, position⟩, isEntry, same⟩ := List.mem_map.mp isPair
      cases same
      exact List.fst_mem_of_mem_zipIdx isEntry
    · exact confined assigned
  · intro member
    obtain ⟨position, found⟩ := List.mem_iff_getElem?.mp member
    left
    refine ⟨row.testBit position, ?_⟩
    apply List.mem_map.mpr
    exact ⟨(name, position), List.mk_mem_zipIdx_iff_getElem?.mpr found, rfl⟩

theorem rowValuation_isOver (names : List String) (row : Nat) :
    (rowValuation names row).IsOver names := by
  intro name
  apply contains_extend_digits_iff
  intro assigned
  simp [Valuation.contains_eq_isSome] at assigned

theorem firstModel_eq_some (found :
    table.firstModel remaining row = some (index, model)) :
    model = rowValuation table.names index ∧ index < row + remaining ∧
      table.target.holds model = true ∧
      ∀ earlier, row ≤ earlier →
        table.target.holds (rowValuation table.names earlier) = true →
          index ≤ earlier := by
  induction remaining generalizing row with
  | zero => simp [firstModel] at found
  | succ remaining ih =>
      rw [firstModel] at found
      split at found
      · next holds =>
          cases found
          refine ⟨rfl, by omega, holds, ?_⟩
          intro earlier after _
          exact after
      · next fails =>
          obtain ⟨isRow, inside, holds, least⟩ := ih found
          refine ⟨isRow, by omega, holds, ?_⟩
          intro earlier after earlierHolds
          apply least earlier _ earlierHolds
          have notFirst : row ≠ earlier := by
            rintro rfl
            exact fails earlierHolds
          omega

/-- What a search finds is a model, and the first one. -/
theorem solve_eq_satisfiable (named : table.names = table.target.vars.toList)
    (answer : table.solve.1 = .satisfiable model) :
    model.IsOver table.names ∧ table.target.holds model = true ∧
      ∀ other : Valuation, other.isTotalOver table.names = true →
        table.target.holds other = true →
          rowNumber table.names model ≤ rowNumber table.names other := by
  have nodup : table.names.Nodup := named ▸ NameSet.nodup_toList _
  rw [solve] at answer
  split at answer
  · next index found isFound =>
      cases answer
      obtain ⟨isRow, inside, holds, least⟩ := firstModel_eq_some isFound
      rw [Nat.zero_add] at inside
      refine ⟨?_, holds, ?_⟩
      · rw [isRow]
        exact rowValuation_isOver table.names index
      · intro other total otherHolds
        rw [isRow, rowNumber_rowValuation nodup inside]
        apply least _ (Nat.zero_le _)
        rw [← otherHolds]
        apply Target.holds_congr
        intro name member
        rw [← named] at member
        exact get?_rowValuation_rowNumber nodup total member
  · cases answer

theorem firstModel_any_rows (table : TruthTable) (rows remaining row : Nat) :
    firstModel { table with rows := rows } remaining row =
      firstModel table remaining row := by
  induction remaining generalizing row with
  | zero => rfl
  | succ remaining ih => simp only [firstModel, ih]

theorem solve_any_rows (table : TruthTable) (rows : Nat) :
    (solve { table with rows := rows }).1 = table.solve.1 := by
  simp only [solve, firstModel_any_rows]
  split <;> rfl

theorem solve_rows (table : TruthTable) (nodup : table.names.Nodup) :
    table.solve.2 = { table with
      rows := table.rows + rowsSearched table.names table.solve.1 } := by
  rw [solve]
  split
  · next index found isFound =>
      obtain ⟨isRow, inside, _⟩ := firstModel_eq_some isFound
      rw [Nat.zero_add] at inside
      rw [rowsSearched, isRow, rowNumber_rowValuation nodup inside]
      rfl
  · rfl

theorem solve_with_rows (nodup : table.names.Nodup) (rows : Nat) :
    (solve { table with rows := rows }).2 = { table with
      rows := rows + rowsSearched table.names table.solve.1 } := by
  have counted := solve_rows { table with rows := rows } nodup
  rwa [solve_any_rows table rows] at counted

/-- Searching again and again finds the same and costs the same. -/
theorem iterate_solve (table : TruthTable) (nodup : table.names.Nodup)
    (times : Nat) :
    (fun current : TruthTable => current.solve.2)^[times] table =
      { table with
        rows :=
          table.rows + times * rowsSearched table.names table.solve.1 } := by
  induction times with
  | zero => simp
  | succ times ih =>
      rw [Function.iterate_succ_apply', ih, solve_with_rows nodup,
        Nat.succ_mul, ← Nat.add_assoc]

theorem overwrite_eq_extend {entries : List (String × Nat)} {row : Nat}
    (covered : ∀ entry ∈ entries, valuation.contains entry.1 = true) :
    entries.foldl (fun current entry =>
      if current.contains entry.1 then
        current.assign entry.1 (row.testBit entry.2)
      else current) valuation =
      valuation.extend
        (entries.map fun entry => (entry.1, row.testBit entry.2)) := by
  induction entries generalizing valuation with
  | nil => rfl
  | cons entry rest ih =>
      rw [List.forall_mem_cons] at covered
      obtain ⟨here, later⟩ := covered
      rw [List.foldl_cons, if_pos here, ih, List.map_cons]
      · rfl
      · intro other member
        exact Valuation.contains_assign_of_contains (later other member) _ _

/-- Written over a valuation of the same variables, a row is the same as a new
one. -/
theorem overwriteRow_eq (nodup : names.Nodup)
    (isOver : valuation.IsOver names) (row : Nat) :
    overwriteRow names row valuation = rowValuation names row := by
  rw [overwriteRow, overwrite_eq_extend]
  · ext1 name
    by_cases member : name ∈ names
    · obtain ⟨index, found⟩ := List.mem_iff_getElem?.mp member
      rw [get?_extend_digits nodup found, get?_rowValuation nodup found]
    · have written := contains_extend_digits_iff (isOver name).mp row
      have fresh := rowValuation_isOver names row name
      rw [iff_false_right member, Bool.not_eq_true,
        Valuation.contains_eq_false_iff] at written fresh
      rw [written, fresh]
  · intro entry member
    exact (isOver entry.1).mpr (List.fst_mem_of_mem_zipIdx member)

theorem firstModelInPlace_eq (nodup : table.names.Nodup)
    (isOver : valuation.IsOver table.names) :
    table.firstModelInPlace remaining row valuation =
      table.firstModel remaining row := by
  induction remaining generalizing row valuation with
  | zero => rfl
  | succ remaining ih =>
      rw [firstModelInPlace, firstModel, overwriteRow_eq nodup isOver,
        ih (rowValuation_isOver table.names row)]

theorem solveInPlace_eq (nodup : table.names.Nodup) :
    table.solveInPlace = table.solve := by
  rw [solveInPlace, solve, firstModelInPlace_eq nodup]
  · rfl
  · intro name
    rw [Valuation.ofList, Valuation.contains_extend_iff]
    simp [Valuation.contains_eq_isSome]

/-- Up to the limit a target has a table over its variables in byte order.
The search of the table finds the model with the least row number if there is
a model, and none otherwise, whether or not it keeps one valuation for all
rows.  Searched any number of times, the table answers the same, and each
search adds the number of rows that it looks at. -/
theorem finds_first_row (target : Target)
    (small : target.vars.size ≤ maxVariables) :
    ∃ table, ofTarget target = .ok table ∧
      (∀ name, name ∈ table.names ↔ name ∈ target.vars) ∧
      (table.names.Pairwise fun first second =>
        utf8Bytes first < utf8Bytes second) ∧
      ((∃ model, table.solve.1 = .satisfiable model) ↔
        ∃ valuation : Valuation, valuation.isTotalOver table.names = true ∧
          target.holds valuation = true) ∧
      (table.solve.1 = .unsatisfiable ↔
        ∀ valuation : Valuation, valuation.isTotalOver table.names = true →
          target.holds valuation = false) ∧
      (∀ model, table.solve.1 = .satisfiable model →
        model.IsOver table.names ∧ target.holds model = true ∧
        ∀ other : Valuation, other.isTotalOver table.names = true →
          target.holds other = true →
            rowNumber table.names model ≤ rowNumber table.names other) ∧
      ∀ times,
        let later := (fun current : TruthTable => current.solve.2)^[times] table
        later.solve.1 = table.solve.1 ∧ later.solveInPlace = later.solve ∧
        later.statistics.decisions =
          times * rowsSearched table.names table.solve.1 := by
  have made := ofTarget_eq_ok small
  have nodup := target.vars.nodup_toList
  have hasModel := isSat_solve_iff_of_ofTarget made
  refine ⟨_, made, ?_, target.vars.pairwise_toList, ?_, ?_, ?_, ?_⟩
  · intro name
    exact Std.ExtTreeSet.mem_toList
  · rw [← hasModel, Outcome.isSat_iff]
  · rw [Outcome.eq_unsatisfiable_iff, ← Bool.not_eq_true, hasModel]
    simp
  · intro model answer
    exact solve_eq_satisfiable rfl answer
  · intro times
    rw [iterate_solve _ nodup]
    refine ⟨solve_any_rows _ _, solveInPlace_eq nodup, ?_⟩
    rw [statistics, Nat.zero_add]

/-- Row three is the first in which `b` and one of `a` and `c` are true, so
that each of three searches looks at four rows. -/
theorem finds_first_row_three :
    (Target.formula (.conj [.atom "b", .disj [.atom "c", .atom "a"]])).vars.size
        ≤ maxVariables ∧
      ∃ table, ofFormula (.conj [.atom "b", .disj [.atom "c", .atom "a"]]) =
          .ok table ∧
        table.solve.1 =
          .satisfiable (.ofList [("a", true), ("b", true), ("c", false)]) ∧
        ((fun current : TruthTable => current.solve.2)^[3]
          table).statistics.decisions = 12 := by
  have small : (Target.formula
      (.conj [.atom "b", .disj [.atom "c", .atom "a"]])).vars.size ≤
        maxVariables := by
    decide +kernel
  obtain ⟨table, made, _, _, _, _, _, repeated⟩ := finds_first_row _ small
  have isTable := made.symm.trans (ofTarget_eq_ok small)
  have answer : table.solve.1 =
      .satisfiable (.ofList [("a", true), ("b", true), ("c", false)]) := by
    cases isTable
    decide +kernel
  have names : table.names = ["a", "b", "c"] := by
    cases isTable
    decide +kernel
  obtain ⟨_, _, decisions⟩ := repeated 3
  rw [answer, names] at decisions
  refine ⟨small, table, made, answer, decisions.trans ?_⟩
  decide +kernel

end TruthTable

end PropSat
