import Mathlib.Data.List.Forall2
import PropSat.Proofs.Text.Numerals
import PropSat.Sudoku.Layout

/-!
# What reading a board answers

A board is read cell by cell, so the answer is a matter of its cells: when
each of them can be read, the board has their values, and otherwise the first
one that cannot be read is reported with its line.
-/

namespace PropSat.Sudoku

section Traversal

variable {Item Group Value Failure : Type}
  {read : Item → Except Failure Value} {failure : Failure}

theorem mapM_eq_ok_iff {items : List Item} {values : List Value} :
    items.mapM read = .ok values ↔
      List.Forall₂ (fun item value => read item = .ok value) items values := by
  induction items generalizing values with
  | nil => simp [pure, Except.pure, eq_comm]
  | cons item rest ih =>
      rw [List.mapM_cons, List.forall₂_cons_left_iff]
      constructor
      · intro done
        cases first : read item with
        | error failure => simp [first, bind, Except.bind] at done
        | ok value =>
            cases others : rest.mapM read with
            | error failure => simp [first, others, bind, Except.bind] at done
            | ok values =>
                simp only [first, others, bind, Except.bind, pure,
                  Except.pure, Except.ok.injEq] at done
                exact ⟨value, values, rfl, ih.mp others, done.symm⟩
      · rintro ⟨value, values, first, others, rfl⟩
        rw [first, ih.mpr others]
        rfl

theorem mapM_eq_error {earlier later : List Item} {item : Item}
    (readable : ∀ other ∈ earlier, ∃ value, read other = .ok value)
    (fails : read item = .error failure) :
    (earlier ++ item :: later).mapM read = .error failure := by
  induction earlier with
  | nil =>
      rw [List.nil_append, List.mapM_cons, fails]
      rfl
  | cons first earlier ih =>
      rw [List.forall_mem_cons] at readable
      obtain ⟨value, isValue⟩ := readable.1
      rw [List.cons_append, List.mapM_cons, isValue, ih readable.2]
      rfl

/-- Items that are read in groups fail as they do one after another. -/
theorem mapM_mapM_eq_error_iff {groups : List Group}
    {members : Group → List Item} :
    groups.mapM (fun group => (members group).mapM read) = .error failure ↔
      (groups.flatMap members).mapM read = .error failure := by
  induction groups with
  | nil => simp [pure, Except.pure]
  | cons group rest ih =>
      rw [List.mapM_cons, List.flatMap_cons, List.mapM_append]
      cases (members group).mapM read with
      | error other => simp [bind, Except.bind]
      | ok values =>
          cases apart : rest.mapM fun group => (members group).mapM read <;>
            cases joined : (rest.flatMap members).mapM read <;>
            simp_all [bind, Except.bind, pure, Except.pure]

end Traversal

namespace Board

/-- What a cell with a value may be written as. -/
def IsWrittenAs (text : List Char) (value : Nat) : Prop :=
  text = ['.'] ∧ value = 0 ∨ Text.IsNumeral text value

def IsReadable (text : List Char) : Prop :=
  ∃ value, IsWrittenAs text value

/-- The cells of a line as they are written, unless it only has rules. -/
def lineCells? (line : List Char) : Option (List (List Char)) :=
  if isSeparator line then none else some (cellTexts line)

def rowTexts (text : List Char) : List (List (List Char)) :=
  (Text.lines text).filterMap lineCells?

/-- The cells of lines one after another, each with the number of its line,
where the lines are counted from one. -/
def numberCells (lines : List (Option (List (List Char)))) :
    List (Nat × List Char) :=
  (lines.zipIdx 1).flatMap fun entry =>
    (entry.1.getD []).map fun cell => (entry.2, cell)

variable {line : Nat} {text : List Char} {value : Nat}

theorem readCell_eq_ok_iff :
    readCell line text = .ok value ↔ IsWrittenAs text value := by
  rw [IsWrittenAs, ← Text.number?_eq_some_iff, readCell]
  split
  · next isDot =>
      subst isDot
      simp [show Text.number? ['.'] = none by decide, eq_comm]
  · next notDot =>
      cases Text.number? text <;> simp [notDot]

theorem readCell_eq_error (unreadable : ¬ IsReadable text) :
    readCell line text = .error (.badCell line (String.ofList text)) := by
  rw [readCell]
  split
  · next isDot => exact absurd ⟨0, .inl ⟨isDot, rfl⟩⟩ unreadable
  · split
    · next value isNumber =>
        exact absurd ⟨value, .inr (Text.number?_eq_some_iff.mp isNumber)⟩
          unreadable
    · rfl

theorem isReadable_iff :
    IsReadable text ↔ text = ['.'] ∨ (Text.number? text).isSome = true := by
  simp only [IsReadable, IsWrittenAs, ← Text.number?_eq_some_iff, exists_or,
    exists_and_left, exists_eq, and_true, Option.isSome_iff_exists]

instance (text : List Char) : Decidable (IsReadable text) :=
  decidable_of_iff _ isReadable_iff.symm

theorem isReadable_of_isDigit {char : Char} (digit : char.isDigit = true) :
    IsReadable [char] := by
  refine ⟨Nat.ofDigitChars 10 [char] 0, .inr ⟨[char], List.cons_ne_nil _ _,
    .inl rfl, by simpa using digit, rfl, ?_⟩⟩
  have atMost := (Text.toNat_of_isDigit digit).2
  simp only [Nat.ofDigitChars_cons, Nat.ofDigitChars_nil, Text.wordLimit,
    UInt64.size]
  omega

theorem readRow_eq_ok_iff {cells : List Nat} :
    readRow line text = .ok cells ↔
      List.Forall₂ IsWrittenAs (cellTexts text) cells := by
  rw [readRow, mapM_eq_ok_iff]
  simp only [readCell_eq_ok_iff]

theorem map_cellTexts_filter (lines : List (List Char)) (start : Nat) :
    ((lines.zipIdx start).filter fun entry => !isSeparator entry.1).map
        (fun entry => cellTexts entry.1) = lines.filterMap lineCells? := by
  induction lines generalizing start with
  | nil => rfl
  | cons line rest ih =>
      rw [List.zipIdx_cons, List.filter_cons, List.filterMap_cons, lineCells?]
      cases isSeparator line <;> simp [ih]

theorem parse_eq_ok_iff {text : String} {rows : List (List Nat)} :
    parse text = .ok ⟨rows⟩ ↔
      List.Forall₂ (List.Forall₂ IsWrittenAs) (rowTexts text.toList) rows := by
  have reads : ∀ (entry : List Char × Nat) (cells : List Nat),
      List.Forall₂ IsWrittenAs (cellTexts entry.1) cells ↔
        readRow entry.2 entry.1 = .ok cells :=
    fun _ _ => readRow_eq_ok_iff.symm
  rw [rowTexts, ← map_cellTexts_filter _ 1, List.forall₂_map_left_iff]
  simp only [reads, ← mapM_eq_ok_iff, parse]
  split
  · next done => simp [done]
  · next failed => simp [failed]

theorem flatMap_cellTexts_filter (lines : List (List Char)) (start : Nat) :
    ((lines.zipIdx start).filter fun entry => !isSeparator entry.1).flatMap
        (fun entry => (cellTexts entry.1).map fun cell => (entry.2, cell)) =
      ((lines.map lineCells?).zipIdx start).flatMap fun entry =>
        (entry.1.getD []).map fun cell => (entry.2, cell) := by
  induction lines generalizing start with
  | nil => rfl
  | cons line rest ih =>
      rw [List.zipIdx_cons, List.filter_cons, List.map_cons, List.zipIdx_cons,
        List.flatMap_cons, lineCells?]
      cases isSeparator line <;> simp [ih]

/-- The first cell that cannot be read is reported. -/
theorem parse_eq_error {text : String} {earlier later : List (Nat × List Char)}
    {line : Nat} {cell : List Char}
    (isFirst : numberCells ((Text.lines text.toList).map lineCells?) =
      earlier ++ (line, cell) :: later)
    (readable : ∀ entry ∈ earlier, IsReadable entry.2)
    (unreadable : ¬ IsReadable cell) :
    parse text = .error (.badCell line (String.ofList cell)) := by
  have fails : (numberCells ((Text.lines text.toList).map lineCells?)).mapM
      (fun entry => readCell entry.1 entry.2) =
      .error (.badCell line (String.ofList cell)) := by
    rw [isFirst]
    apply mapM_eq_error
    · intro entry member
      obtain ⟨value, written⟩ := readable entry member
      exact ⟨value, readCell_eq_ok_iff.mpr written⟩
    · exact readCell_eq_error unreadable
  rw [numberCells, ← flatMap_cellTexts_filter, ← mapM_mapM_eq_error_iff]
    at fails
  simp only [List.mapM_map, Function.comp_def] at fails
  simp only [parse, readRow, fails]

end Board

end PropSat.Sudoku
