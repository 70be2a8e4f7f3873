import PropSat.Proofs.Formula.Descent
import PropSat.Proofs.Formula.Tokens

/-!
# The texts that are formulas

A text is read as a formula exactly when its tokens derive that formula, and
every other text is a failure.  One direction is that the descent takes away
only tokens that derive what it has read.  For the other one, the pass comes
from the tokens of a formula to its delivery, whatever comes after them and
whichever groups are open.
-/

namespace PropSat

namespace Formula

variable {length : Nat} {tokens first second : List Token}
  {operands others : List Formula} {formula : Formula}

def Delivers (length : Nat) (tokens : List Token) (formula : Formula) :
    Prop :=
  ∀ placed, placed.map PlacedToken.token = tokens → ∀ rest groups,
    parseTokens length (placed ++ rest) groups =
      deliver length formula rest groups

/-- The pass reads the tokens as further operands of the innermost group. -/
def AddsOperands (length : Nat) (tokens : List Token)
    (operands : List Formula) : Prop :=
  ∀ placed, placed.map PlacedToken.token = tokens → ∀ rest group outer,
    parseTokens length (placed ++ rest) (group :: outer) =
      parseTokens length rest (group.addAll operands :: outer)

theorem addsOperands_nil : AddsOperands length [] [] := by
  intro placed same rest group outer
  obtain rfl := List.map_eq_nil_iff.mp same
  rw [List.nil_append, OpenGroup.addAll_nil]

theorem Delivers.cons_operands (head : Delivers length first formula)
    (tail : AddsOperands length second operands) :
    AddsOperands length (first ++ second) (formula :: operands) := by
  intro placed same rest group outer
  obtain ⟨front, back, rfl, inFront, inBack⟩ := List.map_eq_append_iff.mp same
  rw [List.append_assoc, head front inFront, deliver, tail back inBack,
    OpenGroup.addAll_cons]

theorem Delivers.operand (head : Delivers length tokens formula) :
    AddsOperands length tokens [formula] := by
  simpa using head.cons_operands addsOperands_nil

theorem delivers_symbol (text : String) :
    Delivers length [.symbol text] (ofSymbol text) := by
  intro placed same rest groups
  obtain ⟨⟨offset, token⟩, rfl, isSymbol⟩ := List.map_eq_singleton_iff.mp same
  cases isSymbol
  exact parseTokens_symbol offset text groups

/-- A group is delivered at its closing parenthesis. -/
theorem AddsOperands.delivers (connective : Connective)
    (inner : AddsOperands length tokens operands)
    (found : connective.formula? operands = some formula) :
    Delivers length (.openParen :: .symbol connective.symbol ::
      (tokens ++ [.closeParen])) formula := by
  intro placed same rest groups
  obtain ⟨⟨_, opening⟩, _, rfl, isOpen, same⟩ := List.map_eq_cons_iff.mp same
  obtain ⟨⟨offset, head⟩, _, rfl, isHead, same⟩ := List.map_eq_cons_iff.mp same
  obtain ⟨within, _, rfl, inWithin, same⟩ := List.map_eq_append_iff.mp same
  obtain ⟨⟨ending, closing⟩, rfl, isClose⟩ := List.map_eq_singleton_iff.mp same
  cases isOpen
  cases isHead
  cases isClose
  have closed : OpenGroup.close
      ⟨offset, connective.symbol, operands.reverse⟩ = .ok formula :=
    OpenGroup.close_eq_ok_iff.mpr ⟨connective, rfl, found⟩
  simp only [List.cons_append, List.append_assoc, List.nil_append]
  rw [parseTokens, inner within inWithin, parseTokens_closeParen]
  simp only [OpenGroup.addAll, List.append_nil, closed]

theorem ofSymbol_of_ne {text : String} (notTrue : text ≠ "true")
    (notFalse : text ≠ "false") : ofSymbol text = .atom text := by
  unfold ofSymbol
  split
  · exact absurd rfl notTrue
  · exact absurd rfl notFalse
  · rfl

mutual

/-- The pass reads what the tokens derive. -/
theorem Derives.delivers (length : Nat) {tokens : List Token}
    {formula : Formula} (derived : Derives tokens formula) :
    Delivers length tokens formula := by
  cases derived with
  | constTrue => exact delivers_symbol "true"
  | constFalse => exact delivers_symbol "false"
  | @name text notTrue notFalse =>
      rw [← ofSymbol_of_ne notTrue notFalse]
      exact delivers_symbol text
  | conj inner =>
      exact (DerivesAll.addsOperands length inner).delivers .conjunction rfl
  | disj inner =>
      exact (DerivesAll.addsOperands length inner).delivers .disjunction rfl
  | neg inner =>
      exact (Derives.delivers length inner).operand.delivers .negation rfl
  | impl left right =>
      have operands := (Derives.delivers length left).cons_operands
        (Derives.delivers length right).operand
      exact operands.delivers .implication rfl
  | eqvi left right =>
      have operands := (Derives.delivers length left).cons_operands
        (Derives.delivers length right).operand
      exact operands.delivers .equivalence rfl

theorem DerivesAll.addsOperands (length : Nat) {tokens : List Token}
    {operands : List Formula} (derived : DerivesAll tokens operands) :
    AddsOperands length tokens operands := by
  cases derived with
  | nil => exact addsOperands_nil
  | cons head tail =>
      exact (Derives.delivers length head).cons_operands
        (DerivesAll.addsOperands length tail)

end

theorem finish_eq_ok_iff {given : Formula} {rest : List PlacedToken} :
    given.finish rest = .ok formula ↔ rest = [] ∧ given = formula := by
  cases rest <;> simp [finish]

theorem parse_eq_ok_iff_derives {text : String} :
    parse text = .ok formula ↔
      Derives ((tokenize text).map PlacedToken.token) formula := by
  constructor
  · intro read
    have ends := readText_eq_parse text (Nat.lt_succ_self _)
    rw [read] at ends
    unfold readText at ends
    split at ends
    · cases ends
    · cases ends
    · next given rest found =>
        obtain ⟨rfl, rfl⟩ := finish_eq_ok_iff.mp (Option.some.inj ends)
        obtain ⟨front, same, derived⟩ := derives_of_readFormula _ found
        rw [same, List.append_nil]
        exact derived
  · intro derived
    have delivered := derived.delivers text.utf8ByteSize (tokenize text) rfl
      [] []
    rw [List.append_nil] at delivered
    rw [parse, delivered]
    rfl

/-- A text is read as a formula exactly when it falls into tokens that derive
the formula, and otherwise it is a failure.  Reading by recursive descent ends
on every text, with the same answer. -/
theorem parse_exact (text : String) :
    (∀ formula, parse text = .ok formula ↔
      ∃ tokens, Token.Cuts text.toList tokens ∧ Derives tokens formula) ∧
    ((∃ error, parse text = .error error) ↔
      ¬∃ formula tokens, Token.Cuts text.toList tokens ∧
        Derives tokens formula) ∧
    (∀ bound, 2 * (tokenize text).length < bound →
      readText bound text = some (parse text)) := by
  have accepts (formula : Formula) : parse text = .ok formula ↔
      ∃ tokens, Token.Cuts text.toList tokens ∧ Derives tokens formula := by
    rw [parse_eq_ok_iff_derives]
    constructor
    · intro derived
      exact ⟨_, Token.cuts_iff.mpr rfl, derived⟩
    · rintro ⟨tokens, cuts, derived⟩
      rw [Token.cuts_iff.mp cuts]
      exact derived
  refine ⟨accepts, ⟨?_, ?_⟩, ?_⟩
  · rintro ⟨error, failed⟩ ⟨formula, derivation⟩
    rw [(accepts formula).mpr derivation] at failed
    cases failed
  · intro underivable
    cases read : parse text with
    | error error => exact ⟨error, rfl⟩
    | ok formula =>
        exact absurd ⟨formula, (accepts formula).mp read⟩ underivable
  · intro bound enough
    exact readText_eq_parse text enough

end Formula

end PropSat
