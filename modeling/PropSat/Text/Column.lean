/-!
# Columns

Texts filled up with spaces to the width of a column.  A text that is wider
already stays as it is.  Widths count characters.
-/

namespace PropSat.Text

/-- The spaces that a text lacks to fill a column. -/
def filling (width : Nat) (text : String) : String :=
  String.ofList (List.replicate (width - text.length) ' ')

def padRight (width : Nat) (text : String) : String :=
  text ++ filling width text

def padLeft (width : Nat) (text : String) : String :=
  filling width text ++ text

end PropSat.Text
