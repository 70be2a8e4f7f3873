import PropSat.Proofs.Formula.Derivations

/-!
# Reading by recursive descent

A formula that starts with a parenthesis is read by reading its operands, one
formula after another.  `readFormula` and `readOperands` do so with a bound on
how deep their calls may go, and answer `none` only where it is reached.  Each
call takes tokens away, so a bound of twice their number suffices.

A formula that is read off the front of the tokens is one that they derive,
and the pass with a stack of open groups goes through the same tokens to the
same formula, or to the same failure.
-/

namespace PropSat

namespace Formula

mutual

/-- Reads one formula, and gives the tokens after it. -/
def readFormula (length : Nat) :
    Nat → List PlacedToken →
      Option (Except ParseError (Formula × List PlacedToken))
  | 0, _ => none
  | _ + 1, [] => some (.error ⟨length, .unexpectedEnd⟩)
  | _ + 1, ⟨_, .symbol text⟩ :: rest => some (.ok (ofSymbol text, rest))
  | _ + 1, ⟨offset, .closeParen⟩ :: _ =>
      some (.error ⟨offset, .unexpectedClose⟩)
  | _ + 1, [⟨_, .openParen⟩] => some (.error ⟨length, .unexpectedEnd⟩)
  | _ + 1, ⟨_, .openParen⟩ :: ⟨offset, .openParen⟩ :: _ =>
      some (.error ⟨offset, .missingConnective⟩)
  | _ + 1, ⟨_, .openParen⟩ :: ⟨offset, .closeParen⟩ :: _ =>
      some (.error ⟨offset, .missingConnective⟩)
  | bound + 1, ⟨_, .openParen⟩ :: ⟨offset, .symbol text⟩ :: inner =>
      match readOperands length bound inner with
      | none => none
      | some (.error error) => some (.error error)
      | some (.ok (operands, rest)) =>
          match OpenGroup.close ⟨offset, text, operands.reverse⟩ with
          | .error error => some (.error error)
          | .ok formula => some (.ok (formula, rest))

/-- Reads formulas up to a closing parenthesis, and takes that away too. -/
def readOperands (length : Nat) :
    Nat → List PlacedToken →
      Option (Except ParseError (List Formula × List PlacedToken))
  | 0, _ => none
  | _ + 1, ⟨_, .closeParen⟩ :: rest => some (.ok ([], rest))
  | bound + 1, tokens =>
      match readFormula length bound tokens with
      | none => none
      | some (.error error) => some (.error error)
      | some (.ok (operand, later)) =>
          match readOperands length bound later with
          | none => none
          | some (.error error) => some (.error error)
          | some (.ok (operands, rest)) => some (.ok (operand :: operands, rest))

end

/-- Reads a text, of which nothing may be left. -/
def readText (bound : Nat) (text : String) :
    Option (Except ParseError Formula) :=
  match readFormula text.utf8ByteSize bound (tokenize text) with
  | none => none
  | some (.error error) => some (.error error)
  | some (.ok (formula, rest)) => some (formula.finish rest)

/-- Goes on with a complete formula, which belongs to the innermost open
group if there is one. -/
def deliver (length : Nat) (formula : Formula) (rest : List PlacedToken) :
    List OpenGroup → Except ParseError Formula
  | [] => formula.finish rest
  | group :: outer => parseTokens length rest (group.add formula :: outer)

variable {length bound : Nat} {tokens rest : List PlacedToken}
  {formula : Formula} {operands : List Formula}

namespace OpenGroup

/-- The group with further operands, which come after those it has. -/
def addAll (group : OpenGroup) (operands : List Formula) : OpenGroup :=
  { group with operands := operands.reverse ++ group.operands }

theorem addAll_nil (group : OpenGroup) : group.addAll [] = group := rfl

theorem addAll_cons (group : OpenGroup) (operand : Formula)
    (operands : List Formula) :
    group.addAll (operand :: operands) =
      (group.add operand).addAll operands := by
  simp [addAll, add]

end OpenGroup

theorem parseTokens_symbol (offset : Nat) (text : String)
    (groups : List OpenGroup) :
    parseTokens length (⟨offset, .symbol text⟩ :: rest) groups =
      deliver length (ofSymbol text) rest groups := by
  cases groups with
  | nil => simp [parseTokens, deliver]
  | cons group outer => simp [parseTokens, deliver]

theorem parseTokens_closeParen (offset : Nat) (group : OpenGroup)
    (outer : List OpenGroup) :
    parseTokens length (⟨offset, .closeParen⟩ :: rest) (group :: outer) =
      match group.close with
      | .error error => .error error
      | .ok formula => deliver length formula rest outer := by
  rw [parseTokens]
  cases group.close with
  | error error => rfl
  | ok formula => cases outer <;> rfl

def StartsOpen (tokens : List PlacedToken) : Prop :=
  ∀ offset rest, tokens ≠ ⟨offset, .closeParen⟩ :: rest

/-- What the pass answers once the descent has read a formula. -/
def afterFormula (length : Nat) (groups : List OpenGroup) :
    Except ParseError (Formula × List PlacedToken) → Except ParseError Formula
  | .error error => .error error
  | .ok (formula, rest) => deliver length formula rest groups

/-- What the pass answers once the descent has read the other operands of the
innermost group. -/
def afterOperands (length : Nat) (group : OpenGroup)
    (outer : List OpenGroup) :
    Except ParseError (List Formula × List PlacedToken) →
      Except ParseError Formula
  | .error error => .error error
  | .ok (operands, rest) =>
      match (group.addAll operands).close with
      | .error error => .error error
      | .ok formula => deliver length formula rest outer

mutual

/-- The pass goes through the tokens of a formula as the descent does.  At a
closing parenthesis it may have a group to close, where the descent has not
been asked for a formula. -/
theorem parseTokens_of_readFormula (bound : Nat) {tokens : List PlacedToken}
    {result : Except ParseError (Formula × List PlacedToken)}
    (read : readFormula length bound tokens = some result)
    (groups : List OpenGroup) (starts : groups = [] ∨ StartsOpen tokens) :
    parseTokens length tokens groups = afterFormula length groups result := by
  cases bound with
  | zero => simp [readFormula] at read
  | succ bound =>
      unfold readFormula at read
      split at read
      · cases read
      · cases read
        simp [parseTokens, afterFormula]
      · cases read
        exact parseTokens_symbol _ _ _
      · cases read
        rcases starts with rfl | isOpen
        · simp [parseTokens, afterFormula]
        · exact absurd rfl (isOpen _ _)
      · cases read
        simp [parseTokens, afterFormula]
      · cases read
        simp [parseTokens, afterFormula]
      · cases read
        simp [parseTokens, afterFormula]
      · next same =>
          cases same
          rw [parseTokens]
          split at read
          · cases read
          · next error failed =>
              cases read
              exact parseTokens_of_readOperands bound failed _ _
          · next operands rest found =>
              rw [parseTokens_of_readOperands bound found]
              simp only [afterOperands, OpenGroup.addAll, List.append_nil]
              split at read
              · cases read
                rfl
              · cases read
                rfl

theorem parseTokens_of_readOperands (bound : Nat) {tokens : List PlacedToken}
    {result : Except ParseError (List Formula × List PlacedToken)}
    (read : readOperands length bound tokens = some result)
    (group : OpenGroup) (outer : List OpenGroup) :
    parseTokens length tokens (group :: outer) =
      afterOperands length group outer result := by
  cases bound with
  | zero => simp [readOperands] at read
  | succ bound =>
      unfold readOperands at read
      split at read
      · cases read
      · cases read
        exact parseTokens_closeParen _ _ _
      · next same isOpen =>
          cases same
          split at read
          · cases read
          · next error failed =>
              cases read
              exact parseTokens_of_readFormula bound failed _ (.inr isOpen)
          · next operand later found =>
              rw [parseTokens_of_readFormula bound found _ (.inr isOpen),
                afterFormula, deliver]
              split at read
              · cases read
              · next error failed =>
                  cases read
                  exact parseTokens_of_readOperands bound failed _ _
              · next operands rest foundAll =>
                  cases read
                  rw [parseTokens_of_readOperands bound foundAll,
                    afterOperands, afterOperands, OpenGroup.addAll_cons]

end

mutual

/-- A formula that is read is derived by the tokens that were taken away. -/
theorem derives_of_readFormula (bound : Nat)
    {tokens rest : List PlacedToken} {formula : Formula}
    (read : readFormula length bound tokens = some (.ok (formula, rest))) :
    ∃ front, tokens = front ++ rest ∧
      Derives (front.map PlacedToken.token) formula := by
  cases bound with
  | zero => simp [readFormula] at read
  | succ bound =>
      unfold readFormula at read
      split at read
      · cases read
      · cases read
      · next offset text _ _ =>
          cases read
          exact ⟨[⟨offset, .symbol text⟩], rfl, derives_ofSymbol text⟩
      · cases read
      · cases read
      · cases read
      · cases read
      · next placed offset text inner same =>
          cases same
          split at read
          · cases read
          · cases read
          · next operands later found =>
              split at read
              · cases read
              · next closed =>
                  cases read
                  obtain ⟨front, ending, rfl, derived⟩ :=
                    derivesAll_of_readOperands bound found
                  refine ⟨⟨placed, .openParen⟩ :: ⟨offset, .symbol text⟩ ::
                    (front ++ [⟨ending, .closeParen⟩]), ?_, ?_⟩
                  · simp
                  · simpa using OpenGroup.derives_of_close closed derived

theorem derivesAll_of_readOperands (bound : Nat)
    {tokens rest : List PlacedToken} {operands : List Formula}
    (read : readOperands length bound tokens = some (.ok (operands, rest))) :
    ∃ front offset, tokens = front ++ ⟨offset, .closeParen⟩ :: rest ∧
      DerivesAll (front.map PlacedToken.token) operands := by
  cases bound with
  | zero => simp [readOperands] at read
  | succ bound =>
      unfold readOperands at read
      split at read
      · cases read
      · next offset _ _ =>
          cases read
          exact ⟨[], offset, rfl, .nil⟩
      · next same _ =>
          cases same
          split at read
          · cases read
          · cases read
          · next operand later found =>
              split at read
              · cases read
              · cases read
              · next foundAll =>
                  cases read
                  obtain ⟨first, rfl, derived⟩ :=
                    derives_of_readFormula bound found
                  obtain ⟨front, offset, rfl, derivedAll⟩ :=
                    derivesAll_of_readOperands bound foundAll
                  refine ⟨first ++ front, offset, by simp, ?_⟩
                  simpa using DerivesAll.cons derived derivedAll

end

theorem length_lt_of_readFormula
    (read : readFormula length bound tokens = some (.ok (formula, rest))) :
    rest.length < tokens.length := by
  obtain ⟨front, rfl, derived⟩ := derives_of_readFormula bound read
  have taken : front ≠ [] := by
    rintro rfl
    exact derived.ne_nil rfl
  have positive := List.length_pos_iff.mpr taken
  rw [List.length_append]
  omega

mutual

/-- Calls go no deeper than twice the number of tokens. -/
theorem readFormula_isSome (bound : Nat) {tokens : List PlacedToken}
    (enough : 2 * tokens.length < bound) :
    (readFormula length bound tokens).isSome := by
  cases bound with
  | zero => omega
  | succ bound =>
      unfold readFormula
      split
      · omega
      · rfl
      · rfl
      · rfl
      · rfl
      · rfl
      · rfl
      · next inner same =>
          cases same
          simp only [List.length_cons] at enough
          have areRead : (readOperands length bound inner).isSome :=
            readOperands_isSome bound (by omega)
          obtain ⟨result, found⟩ := Option.isSome_iff_exists.mp areRead
          rw [found]
          cases result with
          | error error => rfl
          | ok result =>
              dsimp only
              split <;> rfl

theorem readOperands_isSome (bound : Nat) {tokens : List PlacedToken}
    (enough : 2 * tokens.length + 1 < bound) :
    (readOperands length bound tokens).isSome := by
  cases bound with
  | zero => omega
  | succ bound =>
      have isRead : (readFormula length bound tokens).isSome :=
        readFormula_isSome bound (by omega)
      unfold readOperands
      split
      · omega
      · rfl
      · next same _ =>
          cases same
          obtain ⟨result, found⟩ := Option.isSome_iff_exists.mp isRead
          rw [found]
          cases result with
          | error error => rfl
          | ok result =>
              obtain ⟨operand, later⟩ := result
              have shorter := length_lt_of_readFormula found
              have areRead : (readOperands length bound later).isSome :=
                readOperands_isSome bound (by omega)
              obtain ⟨others, foundAll⟩ := Option.isSome_iff_exists.mp areRead
              dsimp only
              rw [foundAll]
              cases others <;> rfl

end

/-- The descent ends on every text, with the answer of the pass. -/
theorem readText_eq_parse (text : String) {bound : Nat}
    (enough : 2 * (tokenize text).length < bound) :
    readText bound text = some (parse text) := by
  have isRead : (readFormula text.utf8ByteSize bound (tokenize text)).isSome :=
    readFormula_isSome bound enough
  obtain ⟨result, read⟩ := Option.isSome_iff_exists.mp isRead
  rw [readText, parse, read,
    parseTokens_of_readFormula bound read [] (.inl rfl)]
  cases result with
  | error error => rfl
  | ok result => rfl

end Formula

end PropSat
