/-!
# Blank characters

The characters with the Unicode property `White_Space`.  They separate symbols
in a formula and cells in a grid.
-/

namespace PropSat.Text

/-- The blank characters as ranges of code points, both ends included. -/
def blankRanges : List (Nat × Nat) :=
  [(0x0009, 0x000D), (0x0020, 0x0020), (0x0085, 0x0085), (0x00A0, 0x00A0),
    (0x1680, 0x1680), (0x2000, 0x200A), (0x2028, 0x2029), (0x202F, 0x202F),
    (0x205F, 0x205F), (0x3000, 0x3000)]

def isBlank (char : Char) : Bool :=
  blankRanges.any fun range =>
    range.1 ≤ char.toNat && char.toNat ≤ range.2

def trimBlanks (text : List Char) : List Char :=
  ((text.dropWhile isBlank).reverse.dropWhile isBlank).reverse

/-- Splits off the pending word, unless it is empty; its characters are given
latest first. -/
def endWord (word : List Char) (words : List (List Char)) :
    List (List Char) :=
  if word.isEmpty then words else word.reverse :: words

/-- Goes through a text, with the current word and the finished words, each
latest first. -/
def wordsFrom : List Char → List Char → List (List Char) → List (List Char)
  | [], word, words => (endWord word words).reverse
  | char :: rest, word, words =>
      if isBlank char then wordsFrom rest [] (endWord word words)
      else wordsFrom rest (char :: word) words

def words (text : List Char) : List (List Char) :=
  wordsFrom text [] []

end PropSat.Text
