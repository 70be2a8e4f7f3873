import PropSat.Proofs.Sudoku.GridLayouts

/-!
# Styles of rows

A row is written cell by cell, with something that leads up to each of them.
As long as only bars do, its line is a dense one; with a blank before each
cell but the first it is spaced, unless there is only one cell.  What is read
then are the cells, or all of their characters.
-/

namespace PropSat.Sudoku.Board

theorem isCellText_toDigits (value : Nat) :
    IsCellText (Nat.toDigits 10 value) := by
  refine ⟨Nat.toDigits_ne_nil, ?_⟩
  intro char member
  have digit := Nat.isDigit_of_mem_toDigits (by decide) (by decide) member
  obtain ⟨notRule, notBlank⟩ := not_isRule_of_isDigit digit
  refine ⟨?_, notBlank⟩
  rintro rfl
  exact notRule (by decide)

/-- A way to write rows: what leads up to the cell at a position, and the
cell.  Nothing but bars is written between packed cells. -/
structure RowStyle where
  packed : Bool
  lead : (position value : Nat) → List Char
  text : Nat → List Char
  numeral : ∀ value, text value = Nat.toDigits 10 value ∨
    text value = ['.'] ∧ value = 0
  oneLine : ∀ position value, '\n' ∉ lead position value
  bars : packed = true → ∀ position value, ∀ char ∈ lead position value,
    char = '|'
  gaps : packed = false → ∀ position value, IsGap (lead position value)
  margin : packed = false → ∀ value, ∀ char ∈ lead 0 value,
    Text.isBlank char = true
  apart : packed = false → ∀ position value, position ≠ 0 →
    ∃ char ∈ lead position value, Text.isBlank char = true

namespace RowStyle

variable {style : RowStyle} {cells : List Nat} {start value : Nat}

/-- The line of a row, or the rest of it from a position on. -/
def line (style : RowStyle) (start : Nat) (cells : List Nat) : List Char :=
  (cells.zipIdx start).flatMap fun entry =>
    style.lead entry.2 entry.1 ++ style.text entry.1

/-- The cells of a row as they are read: one for each character, if there is
nothing to keep them apart. -/
def written (style : RowStyle) (cells : List Nat) : List (List Char) :=
  if style.packed = true ∨ cells.length = 1 then
    (cells.flatMap style.text).map ([·])
  else cells.map style.text

theorem isCellText (style : RowStyle) (value : Nat) :
    IsCellText (style.text value) := by
  rcases style.numeral value with isNumeral | ⟨isDot, -⟩
  · rw [isNumeral]
    exact isCellText_toDigits value
  · rw [isDot]
    decide

theorem length_text_pos (style : RowStyle) (value : Nat) :
    0 < (style.text value).length :=
  List.length_pos_iff.mpr (style.isCellText value).1

theorem isWrittenAs_text (style : RowStyle) (small : value < Text.wordLimit) :
    IsWrittenAs (style.text value) value := by
  rcases style.numeral value with isNumeral | ⟨isDot, isZero⟩
  · right
    rw [isNumeral]
    exact Text.isNumeral_toDigits small
  · left
    exact ⟨isDot, isZero⟩

theorem length_text_le_one_iff (style : RowStyle) :
    (style.text value).length ≤ 1 ↔ value ≤ 9 := by
  rcases style.numeral value with isNumeral | ⟨isDot, isZero⟩
  · rw [isNumeral, Nat.length_toDigits_le_iff (by decide) (by decide)]
    exact Nat.lt_succ_iff
  · rw [isDot]
    simp [isZero]

theorem isReadable_of_mem_text (style : RowStyle) {char : Char}
    (member : char ∈ style.text value) : IsReadable [char] := by
  rcases style.numeral value with isNumeral | ⟨isDot, -⟩
  · rw [isNumeral] at member
    exact isReadable_of_isDigit
      (Nat.isDigit_of_mem_toDigits (by decide) (by decide) member)
  · rw [isDot, List.mem_singleton] at member
    exact ⟨0, .inl ⟨by rw [member], rfl⟩⟩

theorem line_cons (style : RowStyle) (start value : Nat) (rest : List Nat) :
    style.line start (value :: rest) =
      style.lead start value ++ style.text value ++
        style.line (start + 1) rest :=
  rfl

theorem newline_not_mem_line (style : RowStyle) (cells : List Nat) :
    '\n' ∉ style.line 0 cells := by
  intro member
  obtain ⟨entry, -, inEntry⟩ := List.mem_flatMap.mp member
  rcases List.mem_append.mp inEntry with inLead | inText
  · exact style.oneLine _ _ inLead
  · have clean := (style.isCellText entry.1).isBlank_eq_false _ inText
    exact absurd clean (by decide)

theorem dense_line (packed : style.packed = true) (start : Nat)
    (cells : List Nat) :
    Dense ((cells.flatMap style.text).map ([·])) (style.line start cells) := by
  induction cells generalizing start with
  | nil => exact .nil
  | cons value rest ih =>
      rw [line_cons, List.append_assoc, List.flatMap_cons, List.map_append]
      have others := ih (start + 1)
      have withCell := others.characters_append (style.isCellText value).2
      exact withCell.bars_append (style.bars packed start value)

/-- After what leads up to the first cell, the cells are spaced. -/
theorem exists_spaced_line (notPacked : style.packed = false)
    (start value : Nat) (rest : List Nat) :
    ∃ line, style.line start (value :: rest) =
        style.lead start value ++ line ∧
      Spaced ((value :: rest).map style.text) line ∧
      (rest ≠ [] → ∃ char ∈ line, Text.isBlank char = true) := by
  induction rest generalizing start value with
  | nil =>
      refine ⟨style.text value, ?_, .last (style.isCellText value), by simp⟩
      rw [line_cons]
      exact List.append_nil _
  | cons next rest ih =>
      obtain ⟨line, isLine, others, -⟩ := ih (start + 1) next
      obtain ⟨char, inLead, blank⟩ :=
        style.apart notPacked (start + 1) next (Nat.succ_ne_zero start)
      refine ⟨style.text value ++ style.lead (start + 1) next ++ line, ?_,
        .cons (style.isCellText value) (List.ne_nil_of_mem inLead)
          (style.gaps notPacked _ _) others, ?_⟩
      · rw [line_cons, isLine]
        simp
      · intro _
        exact ⟨char, by simp [inLead], blank⟩

theorem rowLine (style : RowStyle) (nonempty : cells ≠ []) :
    RowLine (style.written cells) (style.line 0 cells) := by
  obtain ⟨value, rest, rfl⟩ := List.exists_cons_of_ne_nil nonempty
  have noBlank : ∀ char ∈ ([] : List Char), Text.isBlank char = true := by simp
  have cellText := style.isCellText value
  cases isPacked : style.packed with
  | true =>
      have dense := dense_line isPacked 0 (value :: rest)
      have some_text : (value :: rest).flatMap style.text ≠ [] := by
        simp [cellText.1]
      have row := RowLine.dense (mt List.map_eq_nil_iff.mp some_text) dense
        noBlank noBlank
      simpa [written, isPacked] using row
  | false =>
      by_cases single : rest = []
      · subst single
        have dense := Dense.nil.characters_append cellText.2
        have row := RowLine.dense (by simp [cellText.1]) dense
          (style.margin isPacked value) noBlank
        simpa [written, line] using row
      · obtain ⟨line, isLine, spaced, apart⟩ :=
          exists_spaced_line isPacked 0 value rest
        have gap : IsGap [] := by simp [IsGap]
        have row := RowLine.spaced spaced (.inr (apart single))
          (style.gaps isPacked 0 value) gap
        rw [isLine]
        simpa [written, isPacked, single] using row

/-- The cells of a row as they are read; a row without cells leaves an empty
line. -/
def written? (style : RowStyle) (cells : List Nat) :
    Option (List (List Char)) :=
  if cells = [] then none else some (style.written cells)

theorem exists_layout_line (style : RowStyle) (cells : List Nat)
    {lines : List GridLine} {rest : List Char} (others : LaysOut lines rest) :
    ∃ line : GridLine,
      LaysOut (line :: lines) (style.line 0 cells ++ '\n' :: rest) ∧
      writtenRows (line :: lines) =
        (style.written? cells).toList ++ writtenRows lines := by
  rw [written?]
  by_cases empty : cells = []
  · subst empty
    exact ⟨.rules [] (by simp [IsRuled]) (by simp), .newline others, rfl⟩
  · rw [if_neg empty]
    exact ⟨.row _ _ (style.rowLine empty) (style.newline_not_mem_line cells),
      .newline others, rfl⟩

theorem isReadable_of_mem_written (style : RowStyle)
    (small : ∀ value ∈ cells, value < Text.wordLimit)
    {cell : List Char} (member : cell ∈ style.written cells) :
    IsReadable cell := by
  rw [written] at member
  split at member
  · obtain ⟨char, inCells, rfl⟩ := List.mem_map.mp member
    obtain ⟨value, -, inText⟩ := List.mem_flatMap.mp inCells
    exact style.isReadable_of_mem_text inText
  · obtain ⟨value, inCells, rfl⟩ := List.mem_map.mp member
    exact ⟨value, style.isWrittenAs_text (small value inCells)⟩

theorem map_flatMap_text (style : RowStyle)
    (digits : ∀ value ∈ cells, value ≤ 9) :
    (cells.flatMap style.text).map ([·]) = cells.map style.text := by
  rw [List.map_flatMap, List.map_eq_flatMap]
  apply List.flatMap_congr
  intro value member
  have atMost := style.length_text_le_one_iff.mpr (digits value member)
  have positive := style.length_text_pos value
  obtain ⟨char, isText⟩ := List.length_eq_one_iff.mp
    (Nat.le_antisymm atMost positive)
  rw [isText, List.map_singleton]

theorem length_le_length_flatMap (style : RowStyle) (cells : List Nat) :
    cells.length ≤ (cells.flatMap style.text).length := by
  induction cells with
  | nil => rfl
  | cons value rest ih =>
      have positive := style.length_text_pos value
      rw [List.flatMap_cons, List.length_append, List.length_cons]
      omega

theorem le_nine_of_length_eq (style : RowStyle)
    (same : (cells.flatMap style.text).length = cells.length) :
    ∀ value ∈ cells, value ≤ 9 := by
  induction cells with
  | nil => simp
  | cons value rest ih =>
      have positive := style.length_text_pos value
      have others := style.length_le_length_flatMap rest
      rw [List.flatMap_cons, List.length_append, List.length_cons] at same
      rw [List.forall_mem_cons]
      constructor
      · exact style.length_text_le_one_iff.mp (by omega)
      · exact ih (by omega)

/-- Where cells are read character by character, they have to be single
digits. -/
theorem forall₂_written_iff (style : RowStyle)
    (small : ∀ value ∈ cells, value < Text.wordLimit) :
    List.Forall₂ IsWrittenAs (style.written cells) cells ↔
      (style.packed = true ∨ cells.length = 1 →
        ∀ value ∈ cells, value ≤ 9) := by
  have reads : List.Forall₂ IsWrittenAs (cells.map style.text) cells := by
    rw [List.forall₂_map_left_iff, List.forall₂_same]
    exact fun value member => style.isWrittenAs_text (small value member)
  rw [written]
  split
  · next joined =>
      simp only [joined, forall_const]
      constructor
      · intro areWritten
        apply style.le_nine_of_length_eq
        simpa using areWritten.length_eq
      · intro digits
        rw [style.map_flatMap_text digits]
        exact reads
  · next apart => simp [reads, apart]

theorem filterMap_written? (style : RowStyle) {rows : List (List Nat)}
    (nonempty : ∀ row ∈ rows, row ≠ []) :
    rows.filterMap style.written? = rows.map style.written := by
  rw [← List.filterMap_eq_map]
  apply List.filterMap_congr
  intro row member
  exact if_neg (nonempty row member)

theorem forall₂_filterMap_iff (style : RowStyle) {rows : List (List Nat)}
    {holds : List (List Char) → List Nat → Prop} :
    List.Forall₂ holds (rows.filterMap style.written?) rows ↔
      (∀ row ∈ rows, row ≠ []) ∧
        ∀ row ∈ rows, holds (style.written row) row := by
  constructor
  · intro areWritten
    have nonempty : ∀ row ∈ rows, row ≠ [] := by
      intro row member
      have isWritten :=
        List.filterMap_length_eq_length.mp areWritten.length_eq row member
      rintro rfl
      cases isWritten
    rw [style.filterMap_written? nonempty, List.forall₂_map_left_iff,
      List.forall₂_same] at areWritten
    exact ⟨nonempty, areWritten⟩
  · rintro ⟨nonempty, areWritten⟩
    rw [style.filterMap_written? nonempty, List.forall₂_map_left_iff,
      List.forall₂_same]
    exact areWritten

end RowStyle

end PropSat.Sudoku.Board
