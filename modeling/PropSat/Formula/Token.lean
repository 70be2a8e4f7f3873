import PropSat.Text.Blank

/-!
# Tokens of formula text

A formula text is cut into parentheses and symbols.  A symbol is a maximal run
of characters that are neither blank nor parentheses.  Each token is placed at
the offset of its first byte in the UTF-8 form of the text.
-/

namespace PropSat

inductive Token where
  | openParen
  | closeParen
  /-- A maximal run of other characters, never empty. -/
  | symbol (text : String)
  deriving DecidableEq

/-- A token and where it starts, in bytes. -/
structure PlacedToken where
  offset : Nat
  token : Token
  deriving DecidableEq

namespace Token

def text : Token → String
  | .openParen => "("
  | .closeParen => ")"
  | .symbol text => text

/-- A symbol that has begun: its offset and its characters so far. -/
structure Pending where
  offset : Nat
  text : String

def endSymbol (pending : Option Pending) (tokens : Array PlacedToken) :
    Array PlacedToken :=
  match pending with
  | none => tokens
  | some begun => tokens.push ⟨begun.offset, .symbol begun.text⟩

def extendSymbol (pending : Option Pending) (offset : Nat) (char : Char) :
    Pending :=
  match pending with
  | none => ⟨offset, char.toString⟩
  | some begun => ⟨begun.offset, begun.text.push char⟩

/-- Goes through the characters from `offset` on, with the symbol that has
begun and the tokens found before it. -/
def scan : List Char → Nat → Option Pending → Array PlacedToken →
    Array PlacedToken
  | [], _, pending, tokens => endSymbol pending tokens
  | char :: rest, offset, pending, tokens =>
      let next := offset + char.utf8Size
      if char = '(' then
        scan rest next none ((endSymbol pending tokens).push
          ⟨offset, .openParen⟩)
      else if char = ')' then
        scan rest next none ((endSymbol pending tokens).push
          ⟨offset, .closeParen⟩)
      else if Text.isBlank char then
        scan rest next none (endSymbol pending tokens)
      else scan rest next (some (extendSymbol pending offset char)) tokens

end Token

def tokenize (text : String) : List PlacedToken :=
  (Token.scan text.toList 0 none #[]).toList

end PropSat
