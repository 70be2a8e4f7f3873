import PropSat.Proofs.Sudoku.Clues
import PropSat.Proofs.Sudoku.RowStyles
import PropSat.Sudoku.Examples

/-!
# Reading a written board

A written board is one of the layouts of a grid, so that reading it gives back
its cells unless they could not be kept apart.  On the boards that are drawn
densely a number of several digits is read as several cells, and so it is
wherever a row has no other cell.  A row without cells leaves an empty line,
which is not read at all.
-/

namespace PropSat.Sudoku.Board

def drawnText (value : Nat) : List Char :=
  if value = 0 then ['.'] else Nat.toDigits 10 value

theorem drawnText_eq (value : Nat) :
    drawnText value = Nat.toDigits 10 value ∨
      drawnText value = ['.'] ∧ value = 0 := by
  by_cases isZero : value = 0
  · exact .inr ⟨if_pos isZero, isZero⟩
  · exact .inl (if_neg isZero)

theorem length_drawnText_pos (value : Nat) : 0 < (drawnText value).length := by
  rcases drawnText_eq value with isNumeral | ⟨isDot, -⟩
  · rw [isNumeral]
    exact Nat.length_toDigits_pos
  · rw [isDot]
    decide

/-- What leads up to a drawn cell: a bar between blocks, and what fills its
column. -/
def drawnLead (size : Size) (position value : Nat) : List Char :=
  (gapBefore (spacing size) position).toList ++
    List.replicate ((spacing size).width - (drawnText value).length) ' '

def plainStyle : RowStyle where
  packed := false
  lead position _ := if position = 0 then [] else [' ']
  text := Nat.toDigits 10
  numeral value := .inl rfl
  oneLine position value := by
    split <;> decide
  bars isPacked := nomatch isPacked
  gaps _ position value := by
    split <;> decide
  margin _ value := by simp
  apart _ position value later := by
    rw [if_neg later]
    exact ⟨' ', List.mem_cons_self, by decide⟩

theorem drawnLead_of_side_le {size : Size} (small : size.side ≤ 9)
    (position value : Nat) :
    drawnLead size position value =
      if position = 0 then []
      else if position % size.block = 0 then ['|'] else [] := by
  have width : (spacing size).width = 1 := by
    revert small
    cases size <;> decide
  have gap : (spacing size).gap = "" := if_neg (Nat.not_lt.mpr small)
  have filled : 1 - (drawnText value).length = 0 :=
    Nat.sub_eq_zero_of_le (length_drawnText_pos value)
  have block : (spacing size).block = size.block := rfl
  rw [drawnLead, gapBefore, width, gap, filled, block]
  split_ifs <;> rfl

theorem drawnLead_of_lt_side {size : Size} (large : 9 < size.side)
    (position value : Nat) :
    drawnLead size position value =
      (if position = 0 then []
        else if position % size.block = 0 then [' ', '|', ' '] else [' ']) ++
        List.replicate (2 - (drawnText value).length) ' ' := by
  have width : (spacing size).width = 2 := by
    revert large
    cases size <;> decide
  have gap : (spacing size).gap = " " := if_pos large
  have block : (spacing size).block = size.block := rfl
  rw [drawnLead, gapBefore, width, gap, block]
  split_ifs <;> rfl

theorem eq_of_mem_drawnLead {size : Size} {position value : Nat} {char : Char}
    (member : char ∈ drawnLead size position value) :
    char = '|' ∨ char = ' ' := by
  rcases Nat.lt_or_ge 9 size.side with large | small
  · rw [drawnLead_of_lt_side large, List.mem_append] at member
    rcases member with inGap | isFilling
    · split_ifs at inGap <;>
        simp only [List.mem_cons, List.not_mem_nil, or_false] at inGap <;>
        tauto
    · right
      exact (List.mem_replicate.mp isFilling).2
  · rw [drawnLead_of_side_le small] at member
    split_ifs at member <;> simp_all

def drawnStyle (size : Size) : RowStyle where
  packed := decide (size.side ≤ 9)
  lead := drawnLead size
  text := drawnText
  numeral := drawnText_eq
  oneLine position value member := by
    rcases eq_of_mem_drawnLead member with isBar | isSpace <;> contradiction
  bars isPacked position value char member := by
    rw [drawnLead_of_side_le (of_decide_eq_true isPacked)] at member
    split_ifs at member <;> simp_all
  gaps _ position value char member := by
    rcases eq_of_mem_drawnLead member with rfl | rfl <;> decide
  margin isPacked value char member := by
    have large := Nat.lt_of_not_le (of_decide_eq_false isPacked)
    rw [drawnLead_of_lt_side large, if_pos rfl, List.nil_append] at member
    rw [(List.mem_replicate.mp member).2]
    decide
  apart isPacked position value later := by
    have large := Nat.lt_of_not_le (of_decide_eq_false isPacked)
    refine ⟨' ', ?_, by decide⟩
    rw [drawnLead_of_lt_side large, if_neg later, List.mem_append]
    left
    split_ifs <;> decide

/-- How the rows of a board with so many of them are written. -/
def rowStyle (count : Nat) : RowStyle :=
  match Size.ofSide? count with
  | some size => drawnStyle size
  | none => plainStyle

theorem toList_renderCell (width value : Nat) :
    (renderCell width value).toList =
      List.replicate (width - (drawnText value).length) ' ' ++
        drawnText value := by
  have text : (if value = 0 then "." else toString value).toList =
      drawnText value := by
    unfold drawnText
    split
    · rfl
    · rw [Nat.toString_eq_repr, Nat.toList_repr]
  rw [renderCell, Text.padLeft, String.toList_append, text, Text.filling,
    String.toList_ofList, ← String.length_toList, text]

theorem toList_renderRow (size : Size) (cells : List Nat) :
    (renderRow (spacing size) cells).toList =
      (drawnStyle size).line 0 cells := by
  rw [renderRow, String.toList_join, List.flatMap_map]
  apply List.flatMap_congr
  intro entry _
  rw [String.toList_append, toList_renderCell, ← List.append_assoc]
  rfl

theorem line_plainStyle_succ (start : Nat) (cells : List Nat) :
    plainStyle.line (start + 1) cells =
      cells.flatMap fun value => ' ' :: Nat.toDigits 10 value := by
  induction cells generalizing start with
  | nil => rfl
  | cons value rest ih =>
      rw [RowStyle.line_cons, ih]
      rfl

theorem intercalate_toDigits (value : Nat) (rest : List Nat) :
    [' '].intercalate ((value :: rest).map (Nat.toDigits 10)) =
      Nat.toDigits 10 value ++
        rest.flatMap fun value => ' ' :: Nat.toDigits 10 value := by
  induction rest generalizing value with
  | nil => simp
  | cons next rest ih =>
      have others := ih next
      rw [List.map_cons] at others
      rw [List.map_cons, List.map_cons, List.intercalate_cons_cons, others]
      simp

theorem toList_plainRow (cells : List Nat) :
    (" ".intercalate (cells.map toString)).toList =
      plainStyle.line 0 cells := by
  have digits : (cells.map toString).map String.toList =
      cells.map (Nat.toDigits 10) := by
    rw [List.map_map]
    apply List.map_congr_left
    intro value _
    exact Nat.toList_repr
  rw [String.toList_intercalate, digits]
  cases cells with
  | nil => rfl
  | cons value rest =>
      rw [RowStyle.line_cons, line_plainStyle_succ]
      exact intercalate_toDigits value rest

/-- The rule before a row is a line of its own. -/
theorem exists_layout_renderLine (size : Size) (cells : List Nat) (row : Nat)
    {lines : List GridLine} {rest : List Char} (others : LaysOut lines rest) :
    ∃ more, LaysOut more
        ((renderLine (spacing size) cells row).toList ++ rest) ∧
      writtenRows more =
        ((drawnStyle size).written? cells).toList ++ writtenRows lines := by
  obtain ⟨line, layout, rows⟩ :=
    (drawnStyle size).exists_layout_line cells others
  rw [← toList_renderRow] at layout
  rw [renderLine]
  split
  · have ruled : IsRuled (renderRule (spacing size)).toList := by
      cases size <;> decide
    have oneLine : '\n' ∉ (renderRule (spacing size)).toList := by
      cases size <;> decide
    have ruleLayout : LaysOut (.rules _ ruled oneLine :: line :: lines)
        ((renderRule (spacing size)).toList ++ '\n' ::
          ((renderRow (spacing size) cells).toList ++ '\n' :: rest)) :=
      layout.newline
    refine ⟨.rules _ ruled oneLine :: line :: lines, ?_, rows⟩
    simpa using ruleLayout
  · exact ⟨line :: lines, by simpa using layout, rows⟩

theorem exists_layout_flatMap {Item : Type} {write : Item → List Char}
    {cells? : Item → Option (List (List Char))}
    (each : ∀ item (lines : List GridLine) (rest : List Char),
      LaysOut lines rest → ∃ more, LaysOut more (write item ++ rest) ∧
        writtenRows more = (cells? item).toList ++ writtenRows lines)
    (items : List Item) :
    ∃ lines, LaysOut lines (items.flatMap write) ∧
      writtenRows lines = items.filterMap cells? := by
  induction items with
  | nil => exact ⟨[], .nil, rfl⟩
  | cons item rest ih =>
      obtain ⟨lines, layout, rows⟩ := ih
      obtain ⟨more, moreLayout, moreRows⟩ := each item lines _ layout
      refine ⟨more, moreLayout, ?_⟩
      rw [moreRows, rows, List.filterMap_cons]
      cases cells? item <;> rfl

theorem exists_layout_plainRow (cells : List Nat) {lines : List GridLine}
    {rest : List Char} (others : LaysOut lines rest) :
    ∃ more, LaysOut more
        ((" ".intercalate (cells.map toString) ++ "\n").toList ++ rest) ∧
      writtenRows more =
        (plainStyle.written? cells).toList ++ writtenRows lines := by
  obtain ⟨line, layout, rows⟩ := plainStyle.exists_layout_line cells others
  refine ⟨line :: lines, ?_, rows⟩
  rw [String.toList_append, toList_plainRow, List.append_assoc]
  exact layout

theorem exists_layout_render (board : Board) :
    ∃ lines, LaysOut lines (render board).toList ∧
      writtenRows lines =
        board.rows.filterMap (rowStyle board.rows.length).written? := by
  rw [render, rowStyle]
  cases Size.ofSide? board.rows.length with
  | some size =>
      obtain ⟨lines, layout, rows⟩ := exists_layout_flatMap
        (fun entry : List Nat × Nat => fun _ _ =>
          exists_layout_renderLine size entry.1 entry.2) board.rows.zipIdx
      have positions := List.zipIdx_map_fst 0 board.rows
      refine ⟨lines, ?_, ?_⟩
      · rw [String.toList_join, List.flatMap_map]
        exact layout
      · rw [rows]
        conv_rhs => rw [← positions, List.filterMap_map]
        rfl
  | none =>
      obtain ⟨lines, layout, rows⟩ := exists_layout_flatMap
        (fun cells _ _ => exists_layout_plainRow cells) board.rows
      refine ⟨lines, ?_, rows⟩
      rw [String.toList_join, List.flatMap_map]
      exact layout

theorem parse_render_eq_ok_iff {board : Board} {rows : List (List Nat)}
    (small : ∀ row ∈ board.rows, ∀ value ∈ row, value < Text.wordLimit) :
    parse (render board) = .ok ⟨rows⟩ ↔
      List.Forall₂ (List.Forall₂ IsWrittenAs)
        (board.rows.filterMap (rowStyle board.rows.length).written?) rows := by
  obtain ⟨lines, layout, isWritten⟩ := exists_layout_render board
  have readable : ∀ cells ∈ writtenRows lines, ∀ cell ∈ cells,
      IsReadable cell := by
    intro cells isRow cell member
    rw [isWritten] at isRow
    obtain ⟨row, inBoard, isCells⟩ := List.mem_filterMap.mp isRow
    obtain ⟨-, same⟩ := Option.ite_none_left_eq_some.mp isCells
    cases Option.some.inj same
    exact RowStyle.isReadable_of_mem_written _ (small row inBoard) member
  rw [parse_eq_ok_iff, rowTexts_of_laysOut layout readable, isWritten]

theorem packed_rowStyle_iff (count : Nat) :
    (rowStyle count).packed = true ↔ count = 4 ∨ count = 9 := by
  unfold rowStyle
  split
  · next size found =>
      rw [← Size.side_of_ofSide? found]
      cases size <;> decide
  · next notFound =>
      constructor
      · intro packed
        cases packed
      · rintro (rfl | rfl) <;> contradiction

theorem parse_render_eq_iff {board : Board}
    (small : ∀ row ∈ board.rows, ∀ value ∈ row, value < Text.wordLimit) :
    parse (render board) = .ok board ↔
      (∀ row ∈ board.rows, row ≠ []) ∧
      ∀ row ∈ board.rows,
        (board.rows.length = 4 ∨ board.rows.length = 9) ∨ row.length = 1 →
          ∀ value ∈ row, value ≤ 9 := by
  have reads : parse (render board) = .ok board ↔ _ :=
    parse_render_eq_ok_iff small
  rw [reads, RowStyle.forall₂_filterMap_iff]
  apply and_congr_right
  intro nonempty
  apply forall₂_congr
  intro row member
  rw [RowStyle.forall₂_written_iff _ (small row member), packed_rowStyle_iff]

theorem parse_render_puzzle (puzzle : Puzzle) :
    parse (render puzzle.board) = .ok puzzle.board := by
  have side_bounds : 4 ≤ puzzle.size.side ∧ puzzle.size.side ≤ 25 := by
    cases puzzle.size <;> decide
  have small : ∀ row ∈ puzzle.board.rows, ∀ value ∈ row,
      value < Text.wordLimit := by
    intro row inBoard value inRow
    have fits := puzzle.value_le row inBoard value inRow
    have limit : 25 < Text.wordLimit := by decide
    omega
  apply (parse_render_eq_iff small).mpr
  constructor
  · rintro row inBoard rfl
    have length := puzzle.length_row [] inBoard
    rw [List.length_nil] at length
    omega
  · intro row inBoard joined value inRow
    have fits := puzzle.value_le row inBoard value inRow
    have length := puzzle.length_row row inBoard
    rw [puzzle.length_rows] at joined
    omega

/-- A board reads back from its written form exactly when its cells can be
told apart there, and the board of a puzzle always does. -/
theorem written_boards_read_back :
    (∀ board : Board,
      (∀ row ∈ board.rows, ∀ value ∈ row, value < Text.wordLimit) →
        (parse (render board) = .ok board ↔
          (∀ row ∈ board.rows, row ≠ []) ∧
          (board.rows.length = 4 ∨ board.rows.length = 9 →
            ∀ row ∈ board.rows, ∀ value ∈ row, value ≤ 9) ∧
          (board.rows.length ≠ 4 ∧ board.rows.length ≠ 9 →
            ∀ row ∈ board.rows, row.length = 1 →
              ∀ value ∈ row, value ≤ 9))) ∧
    ∀ (board : Board) (puzzle : Puzzle), Puzzle.ofBoard board = .ok puzzle →
      parse (render board) = .ok board := by
  constructor
  · intro board small
    rw [parse_render_eq_iff small]
    rw [← not_or]
    by_cases packed : board.rows.length = 4 ∨ board.rows.length = 9 <;>
      simp [packed]
  · intro board puzzle accepted
    rw [← Puzzle.ofBoard_eq_ok_iff.mp accepted]
    exact parse_render_puzzle puzzle

/-- The number alone in its row is torn apart, and kept beside another. -/
theorem written_boards_read_back_alone :
    (∀ row ∈ [[12], [3, 4]], ∀ value ∈ row, value < Text.wordLimit) ∧
    parse (render ⟨[[12], [3, 4]]⟩) ≠ .ok ⟨[[12], [3, 4]]⟩ ∧
    (∀ row ∈ [[12, 0], [4]], ∀ value ∈ row, value < Text.wordLimit) ∧
    parse (render ⟨[[12, 0], [4]]⟩) = .ok ⟨[[12, 0], [4]]⟩ ∧
    ∃ puzzle, Puzzle.ofBoard Example.four.board = .ok puzzle ∧
      parse (render Example.four.board) = .ok Example.four.board := by
  have torn : ∀ row ∈ [[12], [3, 4]], ∀ value ∈ row,
      value < Text.wordLimit := by decide
  have kept : ∀ row ∈ [[12, 0], [4]], ∀ value ∈ row,
      value < Text.wordLimit := by decide
  refine ⟨torn, ?_, kept, ?_,
    ⟨Example.four.board, .four, rfl, by decide, by decide⟩,
    Puzzle.ofBoard_eq_ok_iff.mpr rfl, ?_⟩
  · rw [Ne, written_boards_read_back.1 ⟨[[12], [3, 4]]⟩ torn]
    decide
  · apply (written_boards_read_back.1 ⟨[[12, 0], [4]]⟩ kept).mpr
    decide
  · exact written_boards_read_back.2 _
      ⟨Example.four.board, .four, rfl, by decide, by decide⟩
      (Puzzle.ofBoard_eq_ok_iff.mpr rfl)

end PropSat.Sudoku.Board
