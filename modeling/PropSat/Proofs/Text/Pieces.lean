import Mathlib.Data.List.TakeWhile
import PropSat.Text.Blank
import PropSat.Text.Lines

/-!
# Lines and words of a text that is put together

A text is cut into lines and into words by going through it with what was cut
off so far.  Here the cutting is described on texts that are written piece by
piece: a piece without a line feed before a line feed is a line, and a piece
without blanks before a blank is a word.  What was cut off before never
matters.
-/

namespace PropSat.Text

variable {line piece gap before middle after : List Char}

theorem linesFrom_eq_append (text line : List Char) (done : List (List Char)) :
    linesFrom text line done = done.reverse ++ linesFrom text line [] := by
  induction text generalizing line done with
  | nil =>
      rw [linesFrom, linesFrom]
      split <;> simp
  | cons char rest ih =>
      rw [linesFrom, linesFrom]
      split
      · rw [ih _ (_ :: done), ih _ [_]]
        simp
      · exact ih _ _

theorem linesFrom_append (oneLine : '\n' ∉ piece) (rest line : List Char) :
    linesFrom (piece ++ rest) line [] =
      linesFrom rest (piece.reverse ++ line) [] := by
  induction piece generalizing line with
  | nil => rfl
  | cons char piece ih =>
      rw [List.mem_cons, not_or] at oneLine
      rw [List.cons_append, linesFrom, if_neg (Ne.symm oneLine.1),
        ih oneLine.2]
      simp

/-- A line loses a carriage return at its end, and nothing else. -/
theorem reverse_dropReturn (line : List Char) :
    (dropReturn line.reverse).reverse = line ∨
      (dropReturn line.reverse).reverse ++ ['\r'] = line := by
  unfold dropReturn
  split
  · next rest isReturn =>
      right
      rw [← List.reverse_cons, ← isReturn, List.reverse_reverse]
  · left
    rw [List.reverse_reverse]

theorem lines_append_newline (oneLine : '\n' ∉ line) (rest : List Char) :
    lines (line ++ '\n' :: rest) =
      (dropReturn line.reverse).reverse :: lines rest := by
  rw [lines, linesFrom_append oneLine, List.append_nil, linesFrom,
    if_pos rfl, linesFrom_eq_append]
  rfl

theorem lines_append_return_newline (oneLine : '\n' ∉ line)
    (rest : List Char) :
    lines (line ++ '\r' :: '\n' :: rest) = line :: lines rest := by
  have withReturn : '\n' ∉ line ++ ['\r'] := by
    simpa using oneLine
  have cut := lines_append_newline withReturn rest
  simpa [dropReturn] using cut

theorem lines_of_not_mem (oneLine : '\n' ∉ line) (nonempty : line ≠ []) :
    lines line = [line] := by
  have cut := linesFrom_append oneLine [] []
  rw [List.append_nil, List.append_nil] at cut
  rw [lines, cut, linesFrom]
  simp [nonempty]

theorem dropWhile_isBlank_append (starts : middle ≠ [])
    (clean : isBlank (middle.head starts) = false) (before : List Char) :
    (before ++ middle).dropWhile isBlank =
      before.dropWhile isBlank ++ middle := by
  have kept : middle.dropWhile isBlank = middle := by
    cases middle with
    | nil => rfl
    | cons char rest => exact List.dropWhile_cons_of_neg (by simpa using clean)
  rw [List.dropWhile_append, kept]
  split
  · next empty => rw [List.isEmpty_iff.mp empty, List.nil_append]
  · rfl

/-- Trimming stops at what is not blank. -/
theorem trimBlanks_append (starts : middle ≠ [])
    (cleanStart : isBlank (middle.head starts) = false)
    (cleanEnd : isBlank (middle.getLast starts) = false)
    (before after : List Char) :
    trimBlanks (before ++ middle ++ after) =
      before.dropWhile isBlank ++ middle ++
        (after.reverse.dropWhile isBlank).reverse := by
  have front : middle ++ after ≠ [] := by simp [starts]
  have back : middle.reverse ++ (before.dropWhile isBlank).reverse ≠ [] := by
    simp [starts]
  rw [trimBlanks, List.append_assoc, dropWhile_isBlank_append front
    (by simpa [List.head_append_of_ne_nil starts] using cleanStart)]
  simp only [List.reverse_append, List.append_assoc]
  rw [dropWhile_isBlank_append back
    (by simpa [List.head_append_of_ne_nil, starts] using cleanEnd)]
  simp

theorem trimBlanks_append_blanks
    (blank : ∀ char ∈ gap, isBlank char = true) (text : List Char) :
    trimBlanks (text ++ gap) = trimBlanks text := by
  by_cases allBlank : text.dropWhile isBlank = []
  · rw [trimBlanks, trimBlanks, List.dropWhile_append, allBlank]
    simp [List.dropWhile_eq_nil_iff.mpr blank]
  · have dropped : gap.reverse.dropWhile isBlank = [] := by
      apply List.dropWhile_eq_nil_iff.mpr
      simpa using blank
    rw [trimBlanks, trimBlanks, List.dropWhile_append,
      if_neg (by simpa using allBlank), List.reverse_append,
      List.dropWhile_append, dropped]
    simp

theorem wordsFrom_eq_append (text word : List Char) (done : List (List Char)) :
    wordsFrom text word done = done.reverse ++ wordsFrom text word [] := by
  induction text generalizing word done with
  | nil =>
      rw [wordsFrom, wordsFrom]
      unfold endWord
      split <;> simp
  | cons char rest ih =>
      rw [wordsFrom, wordsFrom]
      split
      · rw [ih [] (endWord word done), ih [] (endWord word [])]
        unfold endWord
        split <;> simp
      · exact ih _ _

theorem wordsFrom_append (clean : ∀ char ∈ piece, isBlank char = false)
    (rest word : List Char) :
    wordsFrom (piece ++ rest) word [] =
      wordsFrom rest (piece.reverse ++ word) [] := by
  induction piece generalizing word with
  | nil => rfl
  | cons char piece ih =>
      rw [List.forall_mem_cons] at clean
      rw [List.cons_append, wordsFrom, if_neg (by simp [clean.1]),
        ih clean.2]
      simp

theorem words_append_left (blank : ∀ char ∈ gap, isBlank char = true)
    (rest : List Char) : words (gap ++ rest) = words rest := by
  induction gap with
  | nil => rfl
  | cons char gap ih =>
      rw [List.forall_mem_cons] at blank
      rw [List.cons_append, words, wordsFrom, if_pos blank.1]
      exact ih blank.2

/-- A piece without blanks is a word when a blank or the end follows. -/
theorem words_piece_append (nonempty : piece ≠ [])
    (clean : ∀ char ∈ piece, isBlank char = false)
    (ends : gap = [] → after = [])
    (blank : ∀ char ∈ gap, isBlank char = true) :
    words (piece ++ gap ++ after) = piece :: words after := by
  rw [words, List.append_assoc, wordsFrom_append clean, List.append_nil]
  cases gap with
  | nil =>
      rw [ends rfl, List.nil_append, wordsFrom, endWord]
      simp [nonempty, words, wordsFrom, endWord]
  | cons char gap =>
      rw [List.forall_mem_cons] at blank
      rw [List.cons_append, wordsFrom, if_pos blank.1, wordsFrom_eq_append]
      have skipped : wordsFrom (gap ++ after) [] [] = words after :=
        words_append_left blank.2 after
      rw [skipped, endWord]
      simp [nonempty]

end PropSat.Text
