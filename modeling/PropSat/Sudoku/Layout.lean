import PropSat.Sudoku.Board
import PropSat.Text.Blank
import PropSat.Text.Column
import PropSat.Text.Lines
import PropSat.Text.Numeral

/-!
# Board text

A board is written with one row on a line.  A dot or a zero is an empty cell,
bars separate blocks, and a line of nothing but rules is skipped.  A row that
holds no blank once its bars are gone has one character for each cell;
otherwise its cells are numbers between blanks.

The written form of a board draws the rules between blocks.  Up to nine cells
on a side it is dense, and above that it is spaced, so that it reads back.
-/

namespace PropSat.Sudoku.Board

def isRule (char : Char) : Bool :=
  char == '-' || char == '+' || char == '=' || char == '|'

/-- Whether a line holds no cell: it has only rules and blanks. -/
def isSeparator (line : List Char) : Bool :=
  line.all fun char => isRule char || Text.isBlank char

def cellTexts (line : List Char) : List (List Char) :=
  let trimmed := Text.trimBlanks line
  let compact := trimmed.filter (· != '|')
  if compact.any Text.isBlank then
    Text.words (trimmed.map fun char => if char = '|' then ' ' else char)
  else compact.map ([·])

def readCell (line : Nat) (text : List Char) : Except BoardError Nat :=
  if text = ['.'] then .ok 0
  else
    match Text.number? text with
    | some value => .ok value
    | none => .error (.badCell line (String.ofList text))

def readRow (line : Nat) (text : List Char) : Except BoardError (List Nat) :=
  (cellTexts text).mapM (readCell line)

/-- Reads the text of a board; lines are counted from one. -/
def parse (text : String) : Except BoardError Board :=
  let numbered := (Text.lines text.toList).zipIdx 1
  let rows := numbered.filter fun entry => !isSeparator entry.1
  match rows.mapM fun entry => readRow entry.2 entry.1 with
  | .ok rows => .ok ⟨rows⟩
  | .error error => .error error

structure Spacing where
  block : Nat
  width : Nat
  /-- What stands between cells, and around the bars and crosses. -/
  gap : String

/-- Cells are as wide as the largest number, and stand apart when that has
more than one digit. -/
def spacing (size : Size) : Spacing where
  block := size.block
  width := (toString size.side).length
  gap := if size.side > 9 then " " else ""

/-- A cell; an empty one is a dot. -/
def renderCell (width value : Nat) : String :=
  Text.padLeft width (if value = 0 then "." else toString value)

def gapBefore (form : Spacing) (position : Nat) : String :=
  if position = 0 then ""
  else if position % form.block = 0 then form.gap ++ "|" ++ form.gap
  else form.gap

def renderRow (form : Spacing) (cells : List Nat) : String :=
  String.join (cells.zipIdx.map fun entry =>
    gapBefore form entry.2 ++ renderCell form.width entry.1)

def renderRule (form : Spacing) : String :=
  let dashes :=
    form.block * form.width + form.gap.length * (form.block - 1)
  let dash := String.ofList (List.replicate dashes '-')
  (form.gap ++ "+" ++ form.gap).intercalate (List.replicate form.block dash)

def renderLine (form : Spacing) (cells : List Nat) (row : Nat) : String :=
  let rule :=
    if row ≠ 0 ∧ row % form.block = 0 then renderRule form ++ "\n" else ""
  rule ++ renderRow form cells ++ "\n"

/-- The text of a board.  When it has as many rows as a puzzle the blocks are
drawn; otherwise its rows are numbers between single spaces. -/
def render (board : Board) : String :=
  match Size.ofSide? board.rows.length with
  | some size =>
      String.join (board.rows.zipIdx.map fun entry =>
        renderLine (spacing size) entry.1 entry.2)
  | none =>
      String.join (board.rows.map fun cells =>
        " ".intercalate (cells.map toString) ++ "\n")

instance : ToString Board := ⟨render⟩

end PropSat.Sudoku.Board
