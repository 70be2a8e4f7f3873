/-!
# Lines

Cutting a text into lines.  A line ends at a line feed, and a carriage return
just before it belongs to the ending; what follows the last line feed is a
line too, unless it is empty.
-/

namespace PropSat.Text

def dropReturn : List Char → List Char
  | '\r' :: rest => rest
  | line => line

/-- Goes through a text, with the characters of the current line and the
finished lines, each latest first. -/
def linesFrom : List Char → List Char → List (List Char) → List (List Char)
  | [], line, lines =>
      (if line.isEmpty then lines else line.reverse :: lines).reverse
  | char :: rest, line, lines =>
      if char = '\n' then linesFrom rest [] ((dropReturn line).reverse :: lines)
      else linesFrom rest (char :: line) lines

def lines (text : List Char) : List (List Char) :=
  linesFrom text [] []

end PropSat.Text
