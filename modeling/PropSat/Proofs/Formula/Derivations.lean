import PropSat.Formula.Grammar
import PropSat.Formula.Parser

/-!
# Groups in the grammar

The grammar has a rule for every connective.  Seen from the reader they are
one rule: a group whose tokens derive its operands stands for the formula that
the group is closed to, and no other group stands for a formula.
-/

namespace PropSat

namespace Connective

def symbol : Connective → String
  | .conjunction => "and"
  | .disjunction => "or"
  | .negation => "not"
  | .implication => "impl"
  | .equivalence => "eqvi"

theorem ofSymbol?_symbol (connective : Connective) :
    ofSymbol? connective.symbol = some connective := by
  cases connective <;> rfl

theorem eq_symbol_of_ofSymbol? {text : String} {connective : Connective}
    (named : ofSymbol? text = some connective) : text = connective.symbol := by
  unfold ofSymbol? at named
  split at named <;> cases named <;> rfl

end Connective

namespace Formula

variable {tokens : List Token} {operands : List Formula} {formula : Formula}

theorem Derives.ne_nil (derived : Derives tokens formula) : tokens ≠ [] := by
  cases derived <;> simp

theorem derives_ofSymbol (text : String) :
    Derives [.symbol text] (ofSymbol text) := by
  unfold ofSymbol
  split
  · exact .constTrue
  · exact .constFalse
  · next notTrue notFalse => exact .name notTrue notFalse

theorem derivesAll_singleton_iff :
    DerivesAll tokens [formula] ↔ Derives tokens formula := by
  constructor
  · intro derived
    cases derived with
    | cons first rest =>
        cases rest
        simpa using first
  · intro derived
    simpa using DerivesAll.cons derived .nil

theorem derivesAll_pair_iff {left right : Formula} :
    DerivesAll tokens [left, right] ↔
      ∃ first second, tokens = first ++ second ∧ Derives first left ∧
        Derives second right := by
  constructor
  · intro derived
    cases derived with
    | cons first rest =>
        exact ⟨_, _, rfl, first, derivesAll_singleton_iff.mp rest⟩
  · rintro ⟨first, second, rfl, firstDerived, secondDerived⟩
    exact .cons firstDerived (derivesAll_singleton_iff.mpr secondDerived)

/-- The rules for the connectives in one. -/
theorem Derives.group {connective : Connective}
    (derived : DerivesAll tokens operands)
    (found : connective.formula? operands = some formula) :
    Derives (.openParen :: .symbol connective.symbol ::
      (tokens ++ [.closeParen])) formula := by
  unfold Connective.formula? at found
  split at found
  · cases found
    exact .conj derived
  · cases found
    exact .disj derived
  · cases found
    exact .neg (derivesAll_singleton_iff.mp derived)
  · cases found
    obtain ⟨first, second, rfl, left, right⟩ := derivesAll_pair_iff.mp derived
    exact .impl left right
  · cases found
    obtain ⟨first, second, rfl, left, right⟩ := derivesAll_pair_iff.mp derived
    exact .eqvi left right
  · cases found

namespace OpenGroup

variable {offset : Nat} {symbol : String}

theorem close_eq_ok_iff :
    close ⟨offset, symbol, operands.reverse⟩ = .ok formula ↔
      ∃ connective : Connective, symbol = connective.symbol ∧
        connective.formula? operands = some formula := by
  simp only [close, List.reverse_reverse]
  constructor
  · intro closed
    split at closed
    · cases closed
    · next connective named =>
        split at closed
        · next found =>
            cases closed
            exact ⟨connective, Connective.eq_symbol_of_ofSymbol? named, found⟩
        · cases closed
  · rintro ⟨connective, rfl, found⟩
    rw [Connective.ofSymbol?_symbol]
    simp [found]

/-- A group that can be closed stands for the formula that it is closed to. -/
theorem derives_of_close
    (closed : close ⟨offset, symbol, operands.reverse⟩ = .ok formula)
    (derived : DerivesAll tokens operands) :
    Derives (.openParen :: .symbol symbol :: (tokens ++ [.closeParen]))
      formula := by
  obtain ⟨connective, rfl, found⟩ := close_eq_ok_iff.mp closed
  exact .group derived found

end OpenGroup

end Formula

end PropSat
