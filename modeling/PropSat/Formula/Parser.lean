import PropSat.Formula.Basic
import PropSat.Formula.Token

/-!
# Reading formulas

Formulas are written with the connective first, between parentheses:
`(and (or a b) (not (and a b)))`.  Implication and equivalence have a spelling
of their own, `impl` and `eqvi`, though not a place in the tree.

The reader makes one pass over the tokens.  What is open at a moment is a
stack of groups, each with the operands it has so far; a formula that is
complete goes to the innermost open group, and the text is read when one is
complete outside of all groups.
-/

namespace PropSat

inductive ParseFailure where
  | unexpectedEnd
  | unexpectedClose
  /-- An opening parenthesis is followed by another parenthesis. -/
  | missingConnective
  | wrongArity (connective : String) (count : Nat)
  | unknownConnective (symbol : String)
  | trailingInput
  deriving DecidableEq

def ParseFailure.message : ParseFailure → String
  | .unexpectedEnd => "unexpected end of input"
  | .unexpectedClose => "unexpected `)`"
  | .missingConnective => "expected a connective after `(`"
  | .wrongArity connective count =>
      s!"`{connective}` does not take {count} operands"
  | .unknownConnective symbol => s!"unknown connective `{symbol}`"
  | .trailingInput => "trailing input after formula"

/-- A failure and where it shows, in bytes from the start of the text. -/
structure ParseError where
  /-- Offset of the offending token, or the length of the text. -/
  offset : Nat
  failure : ParseFailure
  deriving DecidableEq

def ParseError.message (error : ParseError) : String :=
  s!"parse error at byte {error.offset}: {error.failure.message}"

inductive Connective where
  | conjunction
  | disjunction
  | negation
  | implication
  | equivalence
  deriving DecidableEq

namespace Connective

def ofSymbol? : String → Option Connective
  | "and" => some .conjunction
  | "or" => some .disjunction
  | "not" => some .negation
  | "impl" => some .implication
  | "eqvi" => some .equivalence
  | _ => none

def formula? : Connective → List Formula → Option Formula
  | .conjunction, operands => some (.conj operands)
  | .disjunction, operands => some (.disj operands)
  | .negation, [operand] => some (.neg operand)
  | .implication, [first, second] => some (.implies first second)
  | .equivalence, [first, second] => some (.iff first second)
  | _, _ => none

end Connective

namespace Formula

def ofSymbol : String → Formula
  | "true" => .const true
  | "false" => .const false
  | name => .atom name

/-- A group whose closing parenthesis is still to come. -/
structure OpenGroup where
  /-- Offset of the symbol after the opening parenthesis. -/
  offset : Nat
  symbol : String
  /-- The operands so far, latest first. -/
  operands : List Formula

namespace OpenGroup

def add (group : OpenGroup) (operand : Formula) : OpenGroup :=
  { group with operands := operand :: group.operands }

/-- The formula of a group at its closing parenthesis.  Only now does it
matter whether the symbol is a connective. -/
def close (group : OpenGroup) : Except ParseError Formula :=
  match Connective.ofSymbol? group.symbol with
  | none => .error ⟨group.offset, .unknownConnective group.symbol⟩
  | some connective =>
      match connective.formula? group.operands.reverse with
      | some formula => .ok formula
      | none =>
          .error ⟨group.offset,
            .wrongArity group.symbol group.operands.length⟩

end OpenGroup

def finish (formula : Formula) : List PlacedToken → Except ParseError Formula
  | [] => .ok formula
  | ⟨offset, _⟩ :: _ => .error ⟨offset, .trailingInput⟩

/-- Reads the tokens that follow, with the open groups, innermost first, in a
text of `length` bytes. -/
def parseTokens (length : Nat) :
    List PlacedToken → List OpenGroup → Except ParseError Formula
  | [], _ => .error ⟨length, .unexpectedEnd⟩
  | ⟨_, .symbol text⟩ :: rest, [] => (ofSymbol text).finish rest
  | ⟨_, .symbol text⟩ :: rest, group :: outer =>
      parseTokens length rest (group.add (ofSymbol text) :: outer)
  | ⟨offset, .closeParen⟩ :: _, [] => .error ⟨offset, .unexpectedClose⟩
  | ⟨_, .closeParen⟩ :: rest, group :: outer =>
      match group.close with
      | .error error => .error error
      | .ok formula =>
          match outer with
          | [] => formula.finish rest
          | next :: outer =>
              parseTokens length rest (next.add formula :: outer)
  | [⟨_, .openParen⟩], _ => .error ⟨length, .unexpectedEnd⟩
  | ⟨_, .openParen⟩ :: ⟨offset, .symbol text⟩ :: rest, groups =>
      parseTokens length rest (⟨offset, text, []⟩ :: groups)
  | ⟨_, .openParen⟩ :: ⟨offset, .openParen⟩ :: _, _ =>
      .error ⟨offset, .missingConnective⟩
  | ⟨_, .openParen⟩ :: ⟨offset, .closeParen⟩ :: _, _ =>
      .error ⟨offset, .missingConnective⟩

def parse (text : String) : Except ParseError Formula :=
  parseTokens text.utf8ByteSize (tokenize text) []

end Formula

end PropSat
