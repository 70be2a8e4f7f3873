import PropSat.Sudoku.Puzzle
import Std.Data.String.ToNat

/-!
# Names of puzzle atoms

The three numbers of a name can be read back from it: a numeral holds no
comma, so the first comma ends the first number and the second comma the
second one.
-/

namespace PropSat.Sudoku

theorem comma_not_mem_repr (number : Nat) : ',' ∉ number.repr.toList := by
  intro member
  rw [Nat.toList_repr] at member
  have isDigit := Nat.isDigit_of_mem_toDigits (by decide) (by decide) member
  exact absurd isDigit (by decide)

/-- Where the parts before the first mark have none, equal texts have equal
parts on both sides of it. -/
theorem append_cons_inj_of_not_mem {mark : Char}
    {front otherFront back otherBack : List Char} (unmarked : mark ∉ front)
    (otherUnmarked : mark ∉ otherFront)
    (same : front ++ mark :: back = otherFront ++ mark :: otherBack) :
    front = otherFront ∧ back = otherBack := by
  induction front generalizing otherFront with
  | nil =>
      cases otherFront with
      | nil => exact ⟨rfl, (List.cons.inj same).2⟩
      | cons letter letters =>
          have isMark := (List.cons.inj same).1
          exact absurd (isMark ▸ List.mem_cons_self) otherUnmarked
  | cons letter letters induction =>
      cases otherFront with
      | nil =>
          have isMark := (List.cons.inj same).1
          exact absurd (isMark ▸ List.mem_cons_self) unmarked
      | cons otherLetter otherLetters =>
          obtain ⟨sameLetter, sameRest⟩ := List.cons.inj same
          obtain ⟨sameLetters, sameBack⟩ := induction
            (fun member => unmarked (List.mem_cons_of_mem _ member))
            (fun member => otherUnmarked (List.mem_cons_of_mem _ member))
            sameRest
          exact ⟨by rw [sameLetter, sameLetters], sameBack⟩

theorem toList_variableName (row column number : Nat) :
    (variableName row column number).toList =
      row.repr.toList ++ ',' ::
        (column.repr.toList ++ ',' :: number.repr.toList) := by
  change (row.repr ++ "," ++ column.repr ++ "," ++ number.repr).toList = _
  simp only [String.toList_append, List.append_assoc]
  rfl

theorem repr_eq_of_toList_eq {first second : Nat}
    (same : first.repr.toList = second.repr.toList) : first = second :=
  Nat.repr_injective (String.toList_injective same)

theorem variableName_inj {row column number otherRow otherColumn
    otherNumber : Nat}
    (same : variableName row column number =
      variableName otherRow otherColumn otherNumber) :
    row = otherRow ∧ column = otherColumn ∧ number = otherNumber := by
  have letters := congrArg String.toList same
  rw [toList_variableName, toList_variableName] at letters
  obtain ⟨rowLetters, rest⟩ := append_cons_inj_of_not_mem
    (comma_not_mem_repr row) (comma_not_mem_repr otherRow) letters
  obtain ⟨columnLetters, numberLetters⟩ := append_cons_inj_of_not_mem
    (comma_not_mem_repr column) (comma_not_mem_repr otherColumn) rest
  exact ⟨repr_eq_of_toList_eq rowLetters, repr_eq_of_toList_eq columnLetters,
    repr_eq_of_toList_eq numberLetters⟩

namespace Puzzle

theorem mem_range_iff {puzzle : Puzzle} {number : Nat} :
    number ∈ puzzle.range ↔ 1 ≤ number ∧ number ≤ puzzle.size.side := by
  rw [range, List.mem_range'_1]
  omega

theorem mem_names_iff {puzzle : Puzzle} {name : String} :
    name ∈ puzzle.names ↔
      ∃ row ∈ puzzle.range, ∃ column ∈ puzzle.range,
        ∃ number ∈ puzzle.range, variableName row column number = name := by
  simp only [names, List.mem_flatMap, List.mem_map]

end Puzzle

end PropSat.Sudoku
