import PropSat.Formula.Printer
import PropSat.Proofs.Formula.Parsing
import PropSat.Proofs.FormulaAtoms

/-!
# Writing formulas and reading them back

A formula is read back from its written form when every atom has a name that
is one symbol and no constant.  The written form falls into tokens that derive
the formula, whatever text comes after it, as long as that text does not
continue the last symbol.

Other names are never read at all: the atoms of a formula that the reader
answers are symbols of the text.
-/

namespace PropSat

/-- The name reads as one symbol, and not as a constant. -/
def Names.IsReadable (name : String) : Prop :=
  name ≠ "" ∧
    (∀ char ∈ name.toList,
      Text.isBlank char = false ∧ char ≠ '(' ∧ char ≠ ')') ∧
    name ≠ "true" ∧ name ≠ "false"

namespace Token

variable {text rest run : List Char} {tokens others : List Token}
  {name : String}

def IsSymbol (name : String) : Prop :=
  name ≠ "" ∧ ∀ char ∈ name.toList, isDelimiter char = false

theorem isSymbol_of_all (isName : name ≠ "")
    (plain : name.toList.all (!isDelimiter ·) = true) : IsSymbol name := by
  refine ⟨isName, ?_⟩
  simpa using plain

/-- The text falls into the tokens before any text that does not continue
its last symbol. -/
def Spells (text : List Char) (tokens : List Token) : Prop :=
  ∀ rest others, EndsSymbol rest → Cuts rest others →
    Cuts (text ++ rest) (tokens ++ others)

theorem Spells.cuts (spells : Spells text tokens) : Cuts text tokens := by
  simpa using spells [] [] trivial .nil

theorem spells_nil : Spells [] [] :=
  fun _ _ _ cuts => cuts

theorem spells_symbol (isSymbol : IsSymbol name) :
    Spells name.toList [.symbol name] := by
  intro rest others ends cuts
  obtain ⟨isName, plain⟩ := isSymbol
  have isRun : name.toList ≠ [] := by
    simpa using isName
  simpa using Cuts.symbol isRun plain ends cuts

theorem spells_closeParen : Spells [')'] [.closeParen] :=
  fun _ _ _ cuts => .closeParen cuts

theorem Spells.openParen (spells : Spells text tokens) :
    Spells ('(' :: text) (.openParen :: tokens) :=
  fun rest others ends cuts => .openParen (spells rest others ends cuts)

theorem Spells.space (spells : Spells text tokens) :
    Spells (' ' :: text) tokens :=
  fun rest others ends cuts =>
    .blank (by decide) (spells rest others ends cuts)

theorem Spells.append (spells : Spells text tokens)
    (spellsRest : Spells rest others) (ends : EndsSymbol rest) :
    Spells (text ++ rest) (tokens ++ others) := by
  intro after later endsAfter cuts
  have cutsRest := spellsRest after later endsAfter cuts
  rw [List.append_assoc, List.append_assoc]
  exact spells _ _ (ends.append endsAfter) cutsRest

theorem Spells.group (spells : Spells text tokens) (ends : EndsSymbol text)
    (isSymbol : IsSymbol name) :
    Spells ('(' :: (name.toList ++ (text ++ [')'])))
      (.openParen :: .symbol name :: (tokens ++ [.closeParen])) := by
  apply Spells.openParen
  apply (spells_symbol isSymbol).append
  · exact spells.append spells_closeParen rfl
  · exact ends.append rfl

theorem Cuts.isSymbol (cuts : Cuts text tokens)
    (member : .symbol name ∈ tokens) : IsSymbol name := by
  induction cuts with
  | nil => simp at member
  | blank _ _ induction => exact induction member
  | openParen _ induction => exact induction (by simpa using member)
  | closeParen _ induction => exact induction (by simpa using member)
  | @symbol run _ _ isRun plain _ _ induction =>
      rcases List.mem_cons.mp member with same | later
      · cases same
        constructor
        · simpa using isRun
        · simpa using plain
      · exact induction later

end Token

namespace Names

theorem IsReadable.isSymbol {name : String} (readable : IsReadable name) :
    Token.IsSymbol name := by
  refine ⟨readable.1, ?_⟩
  intro char member
  obtain ⟨notBlank, notOpen, notClose⟩ := readable.2.1 char member
  exact Token.not_isDelimiter_iff.mpr ⟨notOpen, notClose, notBlank⟩

end Names

namespace Formula

open Token

theorem toList_render_conj (operands : List Formula) :
    (conj operands).render.toList =
      '(' :: ("and".toList ++
        ((String.join (renderOperands operands)).toList ++ [')'])) := by
  simp [render]

theorem toList_render_disj (operands : List Formula) :
    (disj operands).render.toList =
      '(' :: ("or".toList ++
        ((String.join (renderOperands operands)).toList ++ [')'])) := by
  simp [render]

theorem toList_render_neg (operand : Formula) :
    (neg operand).render.toList =
      '(' :: ("not".toList ++ ((' ' :: operand.render.toList) ++ [')'])) := by
  simp [render]

theorem endsSymbol_renderOperands (operands : List Formula) :
    EndsSymbol (String.join (renderOperands operands)).toList := by
  cases operands with
  | nil => simp [renderOperands, EndsSymbol]
  | cons operand rest =>
      have blank : isDelimiter ' ' = true := by decide
      simp [renderOperands, EndsSymbol, blank]

mutual

/-- The written form spells tokens that derive the formula. -/
theorem exists_spells_render (formula : Formula)
    (readable : ∀ name ∈ formula.atoms, Names.IsReadable name) :
    ∃ tokens, Spells formula.render.toList tokens ∧
      Derives tokens formula := by
  cases formula with
  | const value =>
      cases value with
      | true =>
          have isSymbol : IsSymbol "true" :=
            isSymbol_of_all (by decide) (by decide)
          exact ⟨_, spells_symbol isSymbol, .constTrue⟩
      | false =>
          have isSymbol : IsSymbol "false" :=
            isSymbol_of_all (by decide) (by decide)
          exact ⟨_, spells_symbol isSymbol, .constFalse⟩
  | atom name =>
      have isReadable := readable name (by simp [atoms])
      have isSymbol := isReadable.isSymbol
      obtain ⟨_, _, notTrue, notFalse⟩ := isReadable
      rw [render]
      exact ⟨_, spells_symbol isSymbol, .name notTrue notFalse⟩
  | neg operand =>
      obtain ⟨tokens, spells, derived⟩ := exists_spells_render operand (by
        simpa [atoms] using readable)
      rw [toList_render_neg]
      have isSymbol : IsSymbol "not" :=
        isSymbol_of_all (by decide) (by decide)
      exact ⟨_, spells.space.group rfl isSymbol, .neg derived⟩
  | conj operands =>
      obtain ⟨tokens, spells, derived⟩ :=
        exists_spells_renderOperands operands (by
          simpa [atoms] using readable)
      rw [toList_render_conj]
      have isSymbol : IsSymbol "and" :=
        isSymbol_of_all (by decide) (by decide)
      exact ⟨_, spells.group (endsSymbol_renderOperands operands) isSymbol,
        .conj derived⟩
  | disj operands =>
      obtain ⟨tokens, spells, derived⟩ :=
        exists_spells_renderOperands operands (by
          simpa [atoms] using readable)
      rw [toList_render_disj]
      have isSymbol : IsSymbol "or" :=
        isSymbol_of_all (by decide) (by decide)
      exact ⟨_, spells.group (endsSymbol_renderOperands operands) isSymbol,
        .disj derived⟩

theorem exists_spells_renderOperands (operands : List Formula)
    (readable : ∀ name ∈ atomsList operands, Names.IsReadable name) :
    ∃ tokens, Spells (String.join (renderOperands operands)).toList tokens ∧
      DerivesAll tokens operands := by
  cases operands with
  | nil =>
      refine ⟨[], ?_, .nil⟩
      simpa [renderOperands] using spells_nil
  | cons operand rest =>
      obtain ⟨first, spellsFirst, derived⟩ := exists_spells_render operand (by
        intro name member
        exact readable name (List.mem_append_left _ member))
      obtain ⟨later, spellsLater, derivedAll⟩ :=
        exists_spells_renderOperands rest (by
          intro name member
          exact readable name (List.mem_append_right _ member))
      refine ⟨first ++ later, ?_, .cons derived derivedAll⟩
      have spells := spellsFirst.space.append spellsLater
        (endsSymbol_renderOperands rest)
      simpa [renderOperands] using spells

end

/-- The names are symbols among the tokens, and none is a constant. -/
def AreSymbols (tokens : List Token) (names : List String) : Prop :=
  ∀ name ∈ names, .symbol name ∈ tokens ∧ name ≠ "true" ∧ name ≠ "false"

namespace AreSymbols

variable {tokens others : List Token} {names more : List String}

theorem mono (symbols : AreSymbols tokens names) (within : tokens ⊆ others)
    (fewer : more ⊆ names) : AreSymbols others more := by
  intro name member
  obtain ⟨isSymbol, notConstant⟩ := symbols name (fewer member)
  exact ⟨within isSymbol, notConstant⟩

theorem append (symbols : AreSymbols tokens names)
    (later : AreSymbols others more) :
    AreSymbols (tokens ++ others) (names ++ more) := by
  intro name member
  rcases List.mem_append.mp member with inNames | inMore
  · exact symbols.mono (List.subset_append_left _ _) (List.Subset.refl _)
      name inNames
  · exact later.mono (List.subset_append_right _ _) (List.Subset.refl _)
      name inMore

/-- Tokens inside a group are tokens of the group. -/
theorem group (symbols : AreSymbols tokens names) (fewer : more ⊆ names)
    (head : String) :
    AreSymbols (.openParen :: .symbol head :: (tokens ++ [.closeParen]))
      more := by
  apply symbols.mono _ fewer
  intro token member
  simp [member]

end AreSymbols

mutual

theorem Derives.areSymbols {tokens : List Token} {formula : Formula}
    (derived : Derives tokens formula) :
    AreSymbols tokens formula.atoms := by
  cases derived with
  | constTrue => simp [AreSymbols, atoms]
  | constFalse => simp [AreSymbols, atoms]
  | name notTrue notFalse => simp [AreSymbols, atoms, notTrue, notFalse]
  | conj inner => exact (DerivesAll.areSymbols inner).group (by simp [atoms]) _
  | disj inner => exact (DerivesAll.areSymbols inner).group (by simp [atoms]) _
  | neg inner => exact (Derives.areSymbols inner).group (by simp [atoms]) _
  | impl left right =>
      apply ((Derives.areSymbols left).append (Derives.areSymbols right)).group
      simp [implies, atoms, atomsList]
  | eqvi left right =>
      apply ((Derives.areSymbols left).append (Derives.areSymbols right)).group
      simp [iff, implies, atoms, atomsList]

theorem DerivesAll.areSymbols {tokens : List Token} {operands : List Formula}
    (derived : DerivesAll tokens operands) :
    AreSymbols tokens (atomsList operands) := by
  cases derived with
  | nil => simp [AreSymbols, atomsList]
  | cons head tail =>
      exact (Derives.areSymbols head).append (DerivesAll.areSymbols tail)

end

/-- The reader answers only formulas whose names it can read. -/
theorem isReadable_of_parse {text : String} {formula : Formula}
    (read : parse text = .ok formula) :
    ∀ name ∈ formula.atoms, Names.IsReadable name := by
  intro name member
  have cuts := Token.cuts_iff.mpr (rfl : (tokenize text).map _ = _)
  obtain ⟨isSymbol, notTrue, notFalse⟩ :=
    (parse_eq_ok_iff_derives.mp read).areSymbols name member
  obtain ⟨isName, plain⟩ := cuts.isSymbol isSymbol
  refine ⟨isName, ?_, notTrue, notFalse⟩
  intro char inName
  obtain ⟨notOpen, notClose, notBlank⟩ :=
    Token.not_isDelimiter_iff.mp (plain char inName)
  exact ⟨notBlank, notOpen, notClose⟩

/-- The written form of a formula is read as that formula exactly when every
atom has a readable name. -/
theorem parse_render_iff (formula : Formula) :
    parse formula.render = .ok formula ↔
      ∀ name ∈ formula.atoms, Names.IsReadable name := by
  constructor
  · exact isReadable_of_parse
  · intro readable
    obtain ⟨tokens, spells, derived⟩ := exists_spells_render formula readable
    rw [parse_eq_ok_iff_derives, Token.cuts_iff.mp spells.cuts]
    exact derived

end Formula

end PropSat
