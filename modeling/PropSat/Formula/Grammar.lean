import PropSat.Formula.Basic
import PropSat.Formula.Token

/-!
# The grammar of formula text

What a formula text says, without reading it in any order.  `Token.Cuts` is
how a text falls into tokens, and `Formula.Derives` which formula a sequence
of tokens stands for.  `Formula.parse` accepts exactly the texts whose tokens
stand for a formula, and answers that formula.
-/

namespace PropSat

namespace Token

def isDelimiter (char : Char) : Bool :=
  char == '(' || char == ')' || Text.isBlank char

/-- No symbol before the text goes on into it. -/
def EndsSymbol : List Char → Prop
  | [] => True
  | char :: _ => isDelimiter char = true

/-- The text falls into the tokens.  Blanks between them leave no trace, and
a symbol reaches as far as it can. -/
inductive Cuts : List Char → List Token → Prop where
  | nil : Cuts [] []
  | blank {char : Char} {text : List Char} {tokens : List Token} :
      Text.isBlank char = true →
      Cuts text tokens →
      Cuts (char :: text) tokens
  | openParen {text : List Char} {tokens : List Token} :
      Cuts text tokens → Cuts ('(' :: text) (.openParen :: tokens)
  | closeParen {text : List Char} {tokens : List Token} :
      Cuts text tokens → Cuts (')' :: text) (.closeParen :: tokens)
  | symbol {run rest : List Char} {tokens : List Token} :
      run ≠ [] →
      (∀ char ∈ run, isDelimiter char = false) →
      EndsSymbol rest →
      Cuts rest tokens →
      Cuts (run ++ rest) (.symbol (String.ofList run) :: tokens)

end Token

mutual

inductive Formula.Derives : List Token → Formula → Prop where
  | constTrue : Derives [.symbol "true"] (.const true)
  | constFalse : Derives [.symbol "false"] (.const false)
  | name {text : String} :
      text ≠ "true" → text ≠ "false" → Derives [.symbol text] (.atom text)
  | conj {tokens : List Token} {operands : List Formula} :
      DerivesAll tokens operands →
      Derives (.openParen :: .symbol "and" :: (tokens ++ [.closeParen]))
        (.conj operands)
  | disj {tokens : List Token} {operands : List Formula} :
      DerivesAll tokens operands →
      Derives (.openParen :: .symbol "or" :: (tokens ++ [.closeParen]))
        (.disj operands)
  | neg {tokens : List Token} {operand : Formula} :
      Derives tokens operand →
      Derives (.openParen :: .symbol "not" :: (tokens ++ [.closeParen]))
        (.neg operand)
  | impl {first second : List Token} {left right : Formula} :
      Derives first left →
      Derives second right →
      Derives (.openParen :: .symbol "impl" ::
        (first ++ second ++ [.closeParen])) (.implies left right)
  | eqvi {first second : List Token} {left right : Formula} :
      Derives first left →
      Derives second right →
      Derives (.openParen :: .symbol "eqvi" ::
        (first ++ second ++ [.closeParen])) (.iff left right)

inductive Formula.DerivesAll : List Token → List Formula → Prop where
  | nil : DerivesAll [] []
  | cons {first rest : List Token} {operand : Formula}
      {operands : List Formula} :
      Derives first operand →
      DerivesAll rest operands →
      DerivesAll (first ++ rest) (operand :: operands)

end

end PropSat
