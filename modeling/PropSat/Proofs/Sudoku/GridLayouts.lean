import PropSat.Proofs.Sudoku.Reading
import PropSat.Proofs.Text.Pieces

/-!
# The layouts of a grid

There are many ways to write the same grid.  Each row is dense, with one
character for each cell, or spaced, with blanks between its cells; bars stand
between cells or at the ends, blanks around the line, and lines of rules
between the rows.  Whatever the mixture, reading finds the cells as they were
written, so that the layout does not matter.

Which way a row is written is not marked.  A reader only sees whether a blank
is left between the cells once the bars are gone, and a row that is spaced
without any, such as one of a single cell, must have a single character.
-/

namespace PropSat.Sudoku.Board

/-- What can stand for the cell in a spaced row. -/
def IsCellText (cell : List Char) : Prop :=
  cell ≠ [] ∧ ∀ char ∈ cell, char ≠ '|' ∧ Text.isBlank char = false

instance (cell : List Char) : Decidable (IsCellText cell) :=
  decidable_of_iff (cell ≠ [] ∧
      (cell.all fun char => char != '|' && !Text.isBlank char) = true)
    (by simp [IsCellText])

/-- Bars and blanks, as they stand around the cells of a spaced row. -/
def IsGap (gap : List Char) : Prop :=
  ∀ char ∈ gap, char = '|' ∨ Text.isBlank char = true

instance (gap : List Char) : Decidable (IsGap gap) :=
  List.decidableBAll _ gap

/-- Cells of one character with bars between them. -/
inductive Dense : List (List Char) → List Char → Prop where
  | nil : Dense [] []
  | bar {cells : List (List Char)} {line : List Char}
      (rest : Dense cells line) : Dense cells ('|' :: line)
  | cell {char : Char} {cells : List (List Char)} {line : List Char}
      (isCell : IsCellText [char]) (rest : Dense cells line) :
      Dense ([char] :: cells) (char :: line)

/-- Cells with gaps between them. -/
inductive Spaced : List (List Char) → List Char → Prop where
  | last {cell : List Char} (isCell : IsCellText cell) : Spaced [cell] cell
  | cons {cell gap line : List Char} {cells : List (List Char)}
      (isCell : IsCellText cell) (nonempty : gap ≠ []) (isGap : IsGap gap)
      (rest : Spaced cells line) : Spaced (cell :: cells) (cell ++ gap ++ line)

/-- The line of a row with the given cells, in either layout. -/
inductive RowLine : List (List Char) → List Char → Prop where
  | dense {cells : List (List Char)} {before line after : List Char}
      (nonempty : cells ≠ []) (dense : Dense cells line)
      (blankBefore : ∀ char ∈ before, Text.isBlank char = true)
      (blankAfter : ∀ char ∈ after, Text.isBlank char = true) :
      RowLine cells (before ++ line ++ after)
  | spaced {cells : List (List Char)} {before line after : List Char}
      (spaced : Spaced cells line)
      (apart : (∃ char, line = [char]) ∨
        ∃ char ∈ line, Text.isBlank char = true)
      (gapBefore : IsGap before) (gapAfter : IsGap after) :
      RowLine cells (before ++ line ++ after)

def IsRuled (line : List Char) : Prop :=
  ∀ char ∈ line, char ∈ ['-', '+', '=', '|'] ∨ Text.isBlank char = true

theorem isSeparator_iff {line : List Char} :
    isSeparator line = true ↔ IsRuled line := by
  simp [isSeparator, IsRuled, isRule, or_assoc]

instance (line : List Char) : Decidable (IsRuled line) :=
  decidable_of_iff _ isSeparator_iff

/-- A line of a grid: rules, or a row. -/
inductive GridLine where
  | rules (text : List Char) (ruled : IsRuled text) (oneLine : '\n' ∉ text)
  | row (cells : List (List Char)) (text : List Char)
      (written : RowLine cells text) (oneLine : '\n' ∉ text)

namespace GridLine

def text : GridLine → List Char
  | rules text _ _ => text
  | row _ text _ _ => text

def cells? : GridLine → Option (List (List Char))
  | rules _ _ _ => none
  | row cells _ _ _ => some cells

/-- The cells of a row, if its line has more than rules. -/
def visibleCells? : GridLine → Option (List (List Char))
  | rules _ _ _ => none
  | row cells text _ _ => if IsRuled text then none else some cells

theorem oneLine (line : GridLine) : '\n' ∉ line.text := by
  cases line <;> assumption

end GridLine

/-- The lines one after another, each with its ending.  The last one may do
without, unless it is empty. -/
inductive LaysOut : List GridLine → List Char → Prop where
  | nil : LaysOut [] []
  | last {line : GridLine} (nonempty : line.text ≠ []) :
      LaysOut [line] line.text
  | newline {line : GridLine} {lines : List GridLine} {rest : List Char}
      (others : LaysOut lines rest) :
      LaysOut (line :: lines) (line.text ++ '\n' :: rest)
  | returnNewline {line : GridLine} {lines : List GridLine} {rest : List Char}
      (others : LaysOut lines rest) :
      LaysOut (line :: lines) (line.text ++ '\r' :: '\n' :: rest)

def withoutBars (line : List Char) : List Char :=
  line.map fun char => if char = '|' then ' ' else char

def writtenRows (lines : List GridLine) : List (List (List Char)) :=
  lines.filterMap GridLine.cells?

/-- The cells of a grid that are seen, each with the number of its line. -/
def visibleCells (lines : List GridLine) : List (Nat × List Char) :=
  numberCells (lines.map GridLine.visibleCells?)

variable {cells : List (List Char)} {line gap before after cell : List Char}
  {lines : List GridLine} {text : List Char}

theorem isBlank_withoutBars (isGap : IsGap gap) :
    ∀ char ∈ withoutBars gap, Text.isBlank char = true := by
  intro char member
  obtain ⟨original, inGap, rfl⟩ := List.mem_map.mp member
  split
  · decide
  · next notBar => exact (isGap original inGap).resolve_left notBar

theorem withoutBars_append (line after : List Char) :
    withoutBars (line ++ after) = withoutBars line ++ withoutBars after :=
  List.map_append

theorem IsCellText.withoutBars_eq (isCell : IsCellText cell) :
    withoutBars cell = cell := by
  rw [withoutBars, List.map_congr_left, List.map_id]
  intro char member
  exact if_neg (isCell.2 char member).1

theorem IsCellText.isBlank_eq_false (isCell : IsCellText cell) :
    ∀ char ∈ cell, Text.isBlank char = false :=
  fun char member => (isCell.2 char member).2

theorem Dense.eq_map_filter (dense : Dense cells line) :
    cells = (line.filter (· != '|')).map ([·]) := by
  induction dense with
  | nil => rfl
  | bar rest ih => simpa using ih
  | cell isCell rest ih =>
      have notBar := (isCell.2 _ List.mem_cons_self).1
      simp [notBar, ← ih]

theorem Dense.isBlank_eq_false (dense : Dense cells line) :
    ∀ char ∈ line, Text.isBlank char = false := by
  induction dense with
  | nil => simp
  | bar rest ih => exact List.forall_mem_cons.mpr ⟨by decide, ih⟩
  | cell isCell rest ih =>
      exact List.forall_mem_cons.mpr
        ⟨isCell.isBlank_eq_false _ List.mem_cons_self, ih⟩

theorem Dense.bars_append (dense : Dense cells line)
    (bars : ∀ char ∈ gap, char = '|') : Dense cells (gap ++ line) := by
  induction gap with
  | nil => exact dense
  | cons char gap ih =>
      rw [List.forall_mem_cons] at bars
      rw [List.cons_append, bars.1]
      exact .bar (ih bars.2)

theorem Dense.characters_append (dense : Dense cells line)
    (clean : ∀ char ∈ cell, char ≠ '|' ∧ Text.isBlank char = false) :
    Dense (cell.map ([·]) ++ cells) (cell ++ line) := by
  induction cell with
  | nil => exact dense
  | cons char cell ih =>
      rw [List.forall_mem_cons] at clean
      refine .cell ⟨List.cons_ne_nil _ _, ?_⟩ (ih clean.2)
      simpa using clean.1

theorem Spaced.exists_ends (spaced : Spaced cells line) :
    ∃ nonempty : line ≠ [], Text.isBlank (line.head nonempty) = false ∧
      Text.isBlank (line.getLast nonempty) = false := by
  induction spaced with
  | last isCell =>
      exact ⟨isCell.1, isCell.isBlank_eq_false _ (List.head_mem _),
        isCell.isBlank_eq_false _ (List.getLast_mem _)⟩
  | cons isCell nonempty isGap rest ih =>
      obtain ⟨restNonempty, -, cleanEnd⟩ := ih
      have cleanStart := isCell.isBlank_eq_false _ (List.head_mem isCell.1)
      refine ⟨by simp [isCell.1], ?_, ?_⟩
      · simpa [List.head_append_of_ne_nil, isCell.1] using cleanStart
      · rwa [List.getLast_append_of_ne_nil _ restNonempty]

/-- The words are the cells, whatever gap follows. -/
theorem Spaced.words_append (spaced : Spaced cells line)
    (isGap : IsGap after) :
    Text.words (withoutBars (line ++ after)) = cells := by
  induction spaced with
  | @last cell isCell =>
      have cut : Text.words (cell ++ withoutBars after ++ []) =
          cell :: Text.words [] :=
        Text.words_piece_append isCell.1 isCell.isBlank_eq_false
          (fun _ => rfl) (isBlank_withoutBars isGap)
      rw [List.append_nil] at cut
      rw [withoutBars_append, isCell.withoutBars_eq, cut]
      rfl
  | @cons cell gap line cells isCell nonempty between rest ih =>
      have ends : withoutBars gap = [] → withoutBars (line ++ after) = [] :=
        fun empty => absurd (List.map_eq_nil_iff.mp empty) nonempty
      have cut := Text.words_piece_append isCell.1 isCell.isBlank_eq_false
        ends (isBlank_withoutBars between)
      rw [ih] at cut
      rw [List.append_assoc, List.append_assoc, withoutBars_append,
        withoutBars_append, isCell.withoutBars_eq, ← List.append_assoc, cut]

theorem RowLine.cells_ne_nil (written : RowLine cells line) : cells ≠ [] := by
  cases written with
  | dense nonempty => exact nonempty
  | spaced spaced => cases spaced <;> simp

theorem cellTexts_of_dense (nonempty : cells ≠ []) (dense : Dense cells line)
    (blankBefore : ∀ char ∈ before, Text.isBlank char = true)
    (blankAfter : ∀ char ∈ after, Text.isBlank char = true) :
    cellTexts (before ++ line ++ after) = cells := by
  have clean := dense.isBlank_eq_false
  have starts : line ≠ [] := by
    rintro rfl
    exact nonempty dense.eq_map_filter
  have trimmed : Text.trimBlanks (before ++ line ++ after) = line := by
    rw [Text.trimBlanks_append starts (clean _ (List.head_mem starts))
      (clean _ (List.getLast_mem starts)),
      List.dropWhile_eq_nil_iff.mpr blankBefore,
      List.dropWhile_eq_nil_iff.mpr (by simpa using blankAfter)]
    simp
  have compact : (line.filter (· != '|')).any Text.isBlank = false := by
    apply List.any_eq_false.mpr
    intro char member
    simp [clean char (List.mem_of_mem_filter member)]
  rw [cellTexts, trimmed]
  simp only [compact, Bool.false_eq_true, if_false]
  exact dense.eq_map_filter.symm

theorem IsGap.filter_eq_nil (isGap : IsGap gap)
    (noBlank : ∀ char ∈ gap, char ≠ '|' → Text.isBlank char = false) :
    gap.filter (· != '|') = [] := by
  apply List.filter_eq_nil_iff.mpr
  intro char member notBar
  have clean := noBlank char member (by simpa using notBar)
  rcases isGap char member with isBar | blank
  · simp [isBar] at notBar
  · simp [blank] at clean

theorem Spaced.eq_of_singleton {char : Char} (spaced : Spaced cells [char]) :
    cells = [[char]] ∧ char ≠ '|' := by
  generalize isLine : [char] = line at spaced
  cases spaced with
  | last isCell =>
      subst isLine
      exact ⟨rfl, (isCell.2 char List.mem_cons_self).1⟩
  | cons isCell nonempty isGap rest =>
      have lengths := congrArg List.length isLine
      have cellPositive := List.length_pos_iff.mpr isCell.1
      have gapPositive := List.length_pos_iff.mpr nonempty
      simp only [List.length_append, List.length_cons, List.length_nil]
        at lengths
      omega

/-- Without any blank there is one cell, of one character. -/
theorem Spaced.compact_eq (spaced : Spaced cells line)
    (apart : (∃ char, line = [char]) ∨
      ∃ char ∈ line, Text.isBlank char = true)
    (gapBefore : IsGap before) (gapAfter : IsGap after)
    (noBlank : ¬ ((before ++ line ++ after).filter (· != '|')).any
      Text.isBlank = true) :
    ((before ++ line ++ after).filter (· != '|')).map ([·]) = cells := by
  obtain ⟨cleanBefore, cleanLine, cleanAfter⟩ :
      (∀ char ∈ before, char ≠ '|' → Text.isBlank char = false) ∧
      (∀ char ∈ line, char ≠ '|' → Text.isBlank char = false) ∧
      ∀ char ∈ after, char ≠ '|' → Text.isBlank char = false := by
    simpa using noBlank
  rcases apart with ⟨char, rfl⟩ | ⟨char, member, blank⟩
  · obtain ⟨rfl, notBar⟩ := spaced.eq_of_singleton
    rw [List.filter_append, List.filter_append,
      gapBefore.filter_eq_nil cleanBefore, gapAfter.filter_eq_nil cleanAfter]
    simp [notBar]
  · have notBar : char ≠ '|' := by
      rintro rfl
      exact absurd blank (by decide)
    have notBlank := cleanLine char member notBar
    simp [blank] at notBlank

theorem cellTexts_of_spaced (spaced : Spaced cells line)
    (apart : (∃ char, line = [char]) ∨
      ∃ char ∈ line, Text.isBlank char = true)
    (gapBefore : IsGap before) (gapAfter : IsGap after) :
    cellTexts (before ++ line ++ after) = cells := by
  obtain ⟨starts, cleanStart, cleanEnd⟩ := spaced.exists_ends
  rw [cellTexts, Text.trimBlanks_append starts cleanStart cleanEnd]
  generalize isLeft : before.dropWhile Text.isBlank = left
  generalize isRight : (after.reverse.dropWhile Text.isBlank).reverse = right
  have gapLeft : IsGap left := by
    intro char member
    exact gapBefore char ((List.dropWhile_sublist _).subset (isLeft ▸ member))
  have gapRight : IsGap right := by
    intro char member
    rw [← isRight, List.mem_reverse] at member
    exact gapAfter char
      (List.mem_reverse.mp ((List.dropWhile_sublist _).subset member))
  split
  · change Text.words (withoutBars (left ++ line ++ right)) = cells
    rw [List.append_assoc, withoutBars_append,
      Text.words_append_left (isBlank_withoutBars gapLeft)]
    exact spaced.words_append gapRight
  · next noBlank => exact spaced.compact_eq apart gapLeft gapRight noBlank

theorem RowLine.cellTexts_eq (written : RowLine cells line) :
    cellTexts line = cells := by
  cases written with
  | dense nonempty dense blankBefore blankAfter =>
      exact cellTexts_of_dense nonempty dense blankBefore blankAfter
  | spaced spaced apart gapBefore gapAfter =>
      exact cellTexts_of_spaced spaced apart gapBefore gapAfter

theorem Dense.mem_line (dense : Dense cells line) (member : cell ∈ cells) :
    ∀ char ∈ cell, char ∈ line := by
  rw [dense.eq_map_filter] at member
  obtain ⟨char, inLine, rfl⟩ := List.mem_map.mp member
  simpa using List.mem_of_mem_filter inLine

theorem Spaced.mem_line (spaced : Spaced cells line) (member : cell ∈ cells) :
    ∀ char ∈ cell, char ∈ line := by
  induction spaced with
  | last isCell =>
      cases List.mem_singleton.mp member
      exact fun _ inCell => inCell
  | cons isCell nonempty isGap rest ih =>
      intro char inCell
      rw [List.mem_append]
      rcases List.mem_cons.mp member with rfl | member
      · left
        exact List.mem_append_left _ inCell
      · right
        exact ih member char inCell

theorem RowLine.mem_line (written : RowLine cells line)
    (member : cell ∈ cells) : ∀ char ∈ cell, char ∈ line := by
  intro char inCell
  cases written with
  | dense nonempty dense =>
      simp [dense.mem_line member char inCell]
  | spaced spaced =>
      simp [spaced.mem_line member char inCell]

theorem not_isRule_of_isDigit {char : Char} (digit : char.isDigit = true) :
    char ∉ ['-', '+', '=', '|'] ∧ Text.isBlank char = false := by
  constructor
  · intro isRule
    have noDigit : ['-', '+', '=', '|'].all (fun other => !other.isDigit) := by
      decide
    simpa [digit] using List.all_eq_true.mp noDigit char isRule
  · have between := Text.toNat_of_isDigit digit
    simp only [Text.isBlank, Text.blankRanges, List.any_cons, List.any_nil,
      Bool.or_eq_false_iff, Bool.and_eq_false_iff, decide_eq_false_iff_not,
      and_true]
    omega

theorem IsReadable.not_isRuled (readable : IsReadable text) :
    ¬ IsRuled text := by
  intro ruled
  obtain ⟨value, ⟨rfl, -⟩ | numeral⟩ := readable
  · exact absurd ruled (by decide)
  · obtain ⟨char, member, digit⟩ := numeral.exists_isDigit
    obtain ⟨notRule, notBlank⟩ := not_isRule_of_isDigit digit
    rcases ruled char member with isRule | blank
    · exact notRule isRule
    · simp [notBlank] at blank

theorem RowLine.not_isRuled (written : RowLine cells line)
    (member : cell ∈ cells) (readable : IsReadable cell) : ¬ IsRuled line :=
  fun ruled => readable.not_isRuled fun char inCell =>
    ruled char (written.mem_line member char inCell)

theorem lineCells?_append_return (line : List Char) :
    lineCells? (line ++ ['\r']) = lineCells? line := by
  have blank : ∀ char ∈ ['\r'], Text.isBlank char = true :=
    List.forall_mem_singleton.mpr (by decide)
  have sameRules : isSeparator (line ++ ['\r']) = isSeparator line := by
    simp [isSeparator, blank]
  rw [lineCells?, lineCells?, sameRules, cellTexts, cellTexts,
    Text.trimBlanks_append_blanks blank]

theorem GridLine.lineCells?_text (line : GridLine) :
    lineCells? line.text = line.visibleCells? := by
  cases line with
  | rules text ruled =>
      exact if_pos (isSeparator_iff.mpr ruled)
  | row cells text written =>
      rw [lineCells?, GridLine.text, visibleCells?, written.cellTexts_eq]
      simp only [isSeparator_iff]

/-- What is cut from the laid out text are its lines. -/
theorem LaysOut.map_lines (layout : LaysOut lines text) :
    (Text.lines text).map lineCells? = lines.map GridLine.visibleCells? := by
  induction layout with
  | nil => rfl
  | @last line nonempty =>
      rw [Text.lines_of_not_mem line.oneLine nonempty, List.map_singleton,
        line.lineCells?_text]
      rfl
  | @newline line lines rest others ih =>
      have same : lineCells? (Text.dropReturn line.text.reverse).reverse =
          lineCells? line.text := by
        rcases Text.reverse_dropReturn line.text with kept | dropped
        · rw [kept]
        · rw [← lineCells?_append_return, dropped]
      rw [Text.lines_append_newline line.oneLine, List.map_cons, same, ih,
        line.lineCells?_text]
      rfl
  | @returnNewline line lines rest others ih =>
      rw [Text.lines_append_return_newline line.oneLine, List.map_cons, ih,
        line.lineCells?_text]
      rfl

theorem visibleCells?_eq_cells? {line : GridLine}
    (readable : ∀ cells, line.cells? = some cells →
      ∀ cell ∈ cells, IsReadable cell) :
    line.visibleCells? = line.cells? := by
  cases line with
  | rules => rfl
  | row cells text written =>
      obtain ⟨cell, rest, isCells⟩ :=
        List.exists_cons_of_ne_nil written.cells_ne_nil
      have member : cell ∈ cells := by simp [isCells]
      exact if_neg
        (written.not_isRuled member (readable cells rfl cell member))

theorem isReadable_of_forall₂ {values : List Nat}
    (written : List.Forall₂ IsWrittenAs cells values) :
    ∀ cell ∈ cells, IsReadable cell := by
  have both := written.imp fun cell value isWritten =>
    (⟨⟨value, isWritten⟩, isWritten⟩ : IsReadable cell ∧ IsWrittenAs cell value)
  exact ((List.forall₂_and_left _ _).mp both).1

theorem rowTexts_of_laysOut (layout : LaysOut lines text)
    (readable : ∀ cells ∈ writtenRows lines, ∀ cell ∈ cells,
      IsReadable cell) :
    rowTexts text = writtenRows lines := by
  have visible : lines.map GridLine.visibleCells? =
      lines.map GridLine.cells? := by
    apply List.map_congr_left
    intro line member
    apply visibleCells?_eq_cells?
    intro cells isRow
    exact readable cells (List.mem_filterMap.mpr ⟨line, member, isRow⟩)
  have rows := congrArg (List.filterMap id) (layout.map_lines.trans visible)
  rwa [List.filterMap_map, List.filterMap_map] at rows

/-- The layout of a grid does not matter: its rows are read as they are
written, and otherwise the first cell that cannot be read is reported. -/
theorem parse_of_laysOut (layout : LaysOut lines text) :
    (∀ rows : List (List Nat),
      List.Forall₂ (List.Forall₂ IsWrittenAs) (writtenRows lines) rows →
        parse (String.ofList text) = .ok ⟨rows⟩) ∧
    ((∃ entry ∈ visibleCells lines, ¬ IsReadable entry.2) →
      ∃ earlier number cell later,
        visibleCells lines = earlier ++ (number, cell) :: later ∧
        (∀ entry ∈ earlier, IsReadable entry.2) ∧ ¬ IsReadable cell ∧
        parse (String.ofList text) =
          .error (.badCell number (String.ofList cell))) := by
  constructor
  · intro rows written
    have readable : ∀ cells ∈ writtenRows lines, ∀ cell ∈ cells,
        IsReadable cell := by
      have both := written.imp fun cells values areWritten =>
        And.intro (isReadable_of_forall₂ areWritten) areWritten
      exact ((List.forall₂_and_left _ _).mp both).1
    rw [parse_eq_ok_iff, String.toList_ofList,
      rowTexts_of_laysOut layout readable]
    exact written
  · rintro ⟨entry, member, unreadable⟩
    have exists_first : ((visibleCells lines).find? fun entry =>
        decide (¬ IsReadable entry.2)).isSome :=
      List.find?_isSome.mpr ⟨entry, member, decide_eq_true unreadable⟩
    obtain ⟨⟨number, cell⟩, isFirst⟩ := Option.isSome_iff_exists.mp exists_first
    obtain ⟨fails, earlier, later, parts, before⟩ :=
      List.find?_eq_some_iff_append.mp isFirst
    have readable : ∀ entry ∈ earlier, IsReadable entry.2 := by
      intro entry member
      simpa using before entry member
    have notReadable : ¬ IsReadable cell := of_decide_eq_true fails
    have isCut : numberCells ((Text.lines (String.ofList text).toList).map
        lineCells?) = earlier ++ (number, cell) :: later := by
      rw [String.toList_ofList, layout.map_lines]
      exact parts
    exact ⟨earlier, number, cell, later, parts, readable, notReadable,
      parse_eq_error isCut readable notReadable⟩

theorem parse_of_laysOut_mixed :
    (∃ (lines : List GridLine) (text : List Char), LaysOut lines text ∧
      List.Forall₂ (List.Forall₂ IsWrittenAs) (writtenRows lines)
        [[1, 0], [12, 3]] ∧
      parse (String.ofList text) = .ok ⟨[[1, 0], [12, 3]]⟩) ∧
    ∃ (lines : List GridLine) (text : List Char), LaysOut lines text ∧
      (∃ entry ∈ visibleCells lines, ¬ IsReadable entry.2) ∧
      ∃ number cell, parse (String.ofList text) =
        .error (.badCell number (String.ofList cell)) := by
  have denseRow : RowLine [['1'], ['.']] [' ', '1', '|', '.'] :=
    @RowLine.dense _ [' '] ['1', '|', '.'] [] (by decide)
      (.cell (by decide) (.bar (.cell (by decide) .nil)))
      (List.forall_mem_singleton.mpr (by decide)) (List.forall_mem_nil _)
  have spacedRow : RowLine [['1', '2'], ['3']] ['|', '1', '2', ' ', '3'] :=
    @RowLine.spaced _ ['|'] ['1', '2', ' ', '3'] []
      (@Spaced.cons ['1', '2'] [' '] ['3'] _ (by decide) (by decide)
        (by decide) (.last (by decide)))
      (.inr ⟨' ', by decide, by decide⟩) (by decide) (by decide)
  have badRow : RowLine [['1'], ['x']] ['1', 'x'] :=
    @RowLine.dense _ [] ['1', 'x'] [] (by decide)
      (.cell (by decide) (.cell (by decide) .nil))
      (List.forall_mem_nil _) (List.forall_mem_nil _)
  let rules : GridLine := .rules ['-', '+', '-'] (by decide) (by decide)
  constructor
  · have layout : LaysOut [.row _ _ denseRow (by decide), rules,
        .row _ _ spacedRow (by decide)] _ :=
      .newline (.returnNewline (.last (List.cons_ne_nil _ _)))
    have written : List.Forall₂ (List.Forall₂ IsWrittenAs)
        [[['1'], ['.']], [['1', '2'], ['3']]] [[1, 0], [12, 3]] := by
      simp [IsWrittenAs, ← Text.number?_eq_some_iff]
      decide
    exact ⟨_, _, layout, written, (parse_of_laysOut layout).1 _ written⟩
  · have layout : LaysOut [rules, .row _ _ badRow (by decide)] _ :=
      .returnNewline (.newline .nil)
    have unreadable : ∃ entry ∈ visibleCells
        [rules, .row _ _ badRow (by decide)], ¬ IsReadable entry.2 := by
      have visible : visibleCells [rules, .row _ _ badRow (by decide)] =
          [(2, ['1']), (2, ['x'])] := rfl
      rw [visible]
      decide
    obtain ⟨_, number, cell, _, _, _, _, answer⟩ :=
      (parse_of_laysOut layout).2 unreadable
    exact ⟨_, _, layout, unreadable, number, cell, answer⟩

end PropSat.Sudoku.Board
