import PropSat.Proofs.Formula.Parsing
import PropSat.Proofs.Formula.TextParts

/-!
# Where a text is wrong

An error of the reader points at a token, or to the end of a text that ends
too early.  `Explains` says for every kind of failure what the tokens and the
open groups before which the pass stands have to do with it.  Groups have
places as well, since a group that cannot be closed is reported at the symbol
it starts with.

A step of the pass takes tokens away and leaves some group open.  Whatever
explains an error after the step explains it before, so that one induction on
the pass explains every error.

Nothing that follows a formula is read but its first token, which is where
the error points.
-/

namespace PropSat

namespace ParseFailure

theorem toList_append_getElem? {first : String} {index : Nat} {char : Char}
    (found : first.toList[index]? = some char) (second : String) :
    (first ++ second).toList[index]? = some char := by
  obtain ⟨inside, _⟩ := List.getElem?_eq_some_iff.mp found
  rw [String.toList_append, List.getElem?_append_left inside, found]

/-- A message without a symbol of the text in it belongs to one failure. -/
theorem message_eq_iff {failure other : ParseFailure}
    (plain : other = .unexpectedEnd ∨ other = .unexpectedClose ∨
      other = .trailingInput) :
    failure.message = other.message ↔ failure = other := by
  constructor
  · intro same
    have letters : other.message.toList[0]? ≠ some '`' ∧
        other.message.toList[2]? ≠ some 'k' := by
      rcases plain with rfl | rfl | rfl <;> decide
    rw [← same] at letters
    cases failure with
    | wrongArity connective count =>
        refine absurd ?_ letters.1
        change ("`" ++ connective ++ "` does not take " ++ toString count ++
          " operands").toList[0]? = some '`'
        simp only [String.append_assoc]
        exact toList_append_getElem? (by decide) _
    | unknownConnective symbol =>
        refine absurd ?_ letters.2
        change ("unknown connective `" ++ symbol ++ "`").toList[2]? = some 'k'
        rw [String.append_assoc]
        exact toList_append_getElem? (by decide) _
    | _ =>
        revert same
        rcases plain with rfl | rfl | rfl <;> decide
  · rintro rfl
    rfl

end ParseFailure

namespace Formula

variable {length offset : Nat} {tokens consumed rest : List PlacedToken}
  {groups later : List OpenGroup} {error : ParseError} {formula : Formula}

def places (tokens : List PlacedToken) (groups : List OpenGroup) :
    List Nat :=
  tokens.map PlacedToken.offset ++ groups.map OpenGroup.offset

/-- What a failure at the offset has to do with the tokens and the open groups
before which the pass stands. -/
def Explains (length : Nat) (tokens : List PlacedToken)
    (groups : List OpenGroup) (offset : Nat) : ParseFailure → Prop
  | .unexpectedEnd => offset = length
  | .unexpectedClose =>
      groups = [] ∧ ∃ rest, tokens = ⟨offset, .closeParen⟩ :: rest
  | .trailingInput =>
      ∃ before token after formula,
        tokens = before ++ ⟨offset, token⟩ :: after ∧
        ∀ length, parseTokens length before groups = .ok formula
  | .missingConnective => offset ∈ places tokens groups
  | .wrongArity _ _ => offset ∈ places tokens groups
  | .unknownConnective _ => offset ∈ places tokens groups

/-- The pass takes the tokens away, whatever follows them, and some group is
open afterwards. -/
structure Steps (consumed : List PlacedToken)
    (groups later : List OpenGroup) : Prop where
  isOpen : later ≠ []
  places_subset : later.map OpenGroup.offset ⊆ places consumed groups
  parse_eq : ∀ length rest,
    parseTokens length (consumed ++ rest) groups =
      parseTokens length rest later

theorem steps_symbol (offset : Nat) (text : String) (group : OpenGroup)
    (outer : List OpenGroup) :
    Steps [⟨offset, .symbol text⟩] (group :: outer)
      (group.add (ofSymbol text) :: outer) where
  isOpen := List.cons_ne_nil _ _
  places_subset := List.subset_append_right _ _
  parse_eq _ _ := parseTokens_symbol offset text (group :: outer)

theorem steps_openParen (placed offset : Nat) (text : String)
    (groups : List OpenGroup) :
    Steps [⟨placed, .openParen⟩, ⟨offset, .symbol text⟩] groups
      (⟨offset, text, []⟩ :: groups) where
  isOpen := List.cons_ne_nil _ _
  places_subset := List.subset_cons_self _ _
  parse_eq length rest := by
    simp only [List.cons_append, List.nil_append]
    rw [parseTokens]

theorem steps_closeParen (offset : Nat) {group : OpenGroup}
    (closed : group.close = .ok formula) (next : OpenGroup)
    (outer : List OpenGroup) :
    Steps [⟨offset, .closeParen⟩] (group :: next :: outer)
      (next.add formula :: outer) where
  isOpen := List.cons_ne_nil _ _
  places_subset _ member :=
    List.mem_append_right _ (List.mem_cons_of_mem _ member)
  parse_eq length rest := by
    rw [List.singleton_append, parseTokens_closeParen, closed]
    rfl

namespace Explains

variable {failure : ParseFailure}

theorem places_subset (steps : Steps consumed groups later) :
    places rest later ⊆ places (consumed ++ rest) groups := by
  intro place member
  simp only [places, List.map_append, List.mem_append] at member ⊢
  rcases member with inRest | inGroups
  · exact .inl (.inr inRest)
  · have known := steps.places_subset inGroups
    rw [places, List.mem_append] at known
    rcases known with inConsumed | inGroups
    · exact .inl (.inl inConsumed)
    · exact .inr inGroups

/-- What explains a failure after a step explains it before. -/
theorem of_steps (steps : Steps consumed groups later)
    (explained : Explains length rest later offset failure) :
    Explains length (consumed ++ rest) groups offset failure := by
  cases failure with
  | unexpectedEnd => exact explained
  | unexpectedClose => exact absurd explained.1 steps.isOpen
  | trailingInput =>
      obtain ⟨before, token, after, formula, rfl, read⟩ := explained
      refine ⟨consumed ++ before, token, after, formula,
        (List.append_assoc _ _ _).symm, ?_⟩
      intro length
      rw [steps.parse_eq, read]
  | missingConnective => exact places_subset steps explained
  | wrongArity connective count => exact places_subset steps explained
  | unknownConnective symbol => exact places_subset steps explained

/-- A token after the formula is reported as such. -/
theorem of_finish (consumed : List PlacedToken)
    (read : ∀ length, parseTokens length consumed groups = .ok formula)
    (failed : formula.finish rest = .error error) :
    Explains length (consumed ++ rest) groups error.offset error.failure := by
  cases rest with
  | nil => cases failed
  | cons token rest =>
      cases failed
      exact ⟨consumed, token.token, rest, formula, rfl, read⟩

theorem of_close {group : OpenGroup} {outer : List OpenGroup}
    (failed : group.close = .error error) :
    Explains length tokens (group :: outer) error.offset error.failure := by
  have here : group.offset ∈ places tokens (group :: outer) :=
    List.mem_append_right _ List.mem_cons_self
  unfold OpenGroup.close at failed
  split at failed
  · cases failed
    exact here
  · split at failed
    · cases failed
    · cases failed
      exact here

/-- Every error of the pass has an explanation. -/
theorem of_parseTokens
    (failed : parseTokens length tokens groups = .error error) :
    Explains length tokens groups error.offset error.failure := by
  fun_induction parseTokens length tokens groups with
  | case1 groups =>
      cases failed
      exact rfl
  | case2 offset text rest =>
      refine of_finish [⟨offset, .symbol text⟩] ?_ failed
      intro length
      rw [parseTokens_symbol]
      rfl
  | case3 offset text rest group outer induction =>
      exact of_steps (steps_symbol offset text group outer) (induction failed)
  | case4 offset rest =>
      cases failed
      exact ⟨rfl, rest, rfl⟩
  | case5 offset rest group outer given closed =>
      cases failed
      exact of_close closed
  | case6 offset rest group formula closed =>
      refine of_finish [⟨offset, .closeParen⟩] ?_ failed
      intro length
      rw [parseTokens_closeParen, closed]
      rfl
  | case7 offset rest group formula closed next outer induction =>
      exact of_steps (steps_closeParen offset closed next outer)
        (induction failed)
  | case8 offset groups =>
      cases failed
      exact rfl
  | case9 placed offset text rest groups induction =>
      exact of_steps (steps_openParen placed offset text groups)
        (induction failed)
  | case10 placed offset rest groups =>
      cases failed
      simp [Explains, places]
  | case11 placed offset rest groups =>
      cases failed
      simp [Explains, places]

/-- Outside of all groups only a text that ends too early leads away from its
tokens. -/
theorem exists_token (explained : Explains length tokens [] offset failure)
    (notEnd : failure ≠ .unexpectedEnd) :
    ∃ token ∈ tokens, token.offset = offset := by
  have atToken (member : offset ∈ places tokens []) :
      ∃ token ∈ tokens, token.offset = offset := by
    simpa [places] using member
  cases failure with
  | unexpectedEnd => exact absurd rfl notEnd
  | unexpectedClose =>
      obtain ⟨_, rest, rfl⟩ := explained
      exact ⟨_, List.mem_cons_self, rfl⟩
  | trailingInput =>
      obtain ⟨before, token, after, _, rfl, _⟩ := explained
      exact ⟨⟨offset, token⟩, by simp, rfl⟩
  | missingConnective => exact atToken explained
  | wrongArity connective count => exact atToken explained
  | unknownConnective symbol => exact atToken explained

end Explains

section Texts

variable {text blanks after : String}

theorem offset_eq_utf8ByteSize_iff (failed : parse text = .error error) :
    error.offset = text.utf8ByteSize ↔ error.failure = .unexpectedEnd := by
  have explained := Explains.of_parseTokens failed
  constructor
  · intro isEnd
    by_contra notEnd
    obtain ⟨token, member, place⟩ := explained.exists_token notEnd
    have inside := offset_lt_of_mem_tokenize member
    omega
  · intro isEnd
    rw [isEnd] at explained
    exact explained

theorem exists_formula_before (failed : parse text = .error error)
    (trailing : error.failure = .trailingInput) :
    ∃ before after, text = before ++ after ∧
      before.utf8ByteSize = error.offset ∧
      ∃ formula, parse before = .ok formula := by
  have explained := Explains.of_parseTokens failed
  rw [trailing] at explained
  obtain ⟨front, token, back, formula, found, read⟩ := explained
  obtain ⟨before, after, split, place, tokens⟩ := exists_text_before found
  refine ⟨before, after, split, place, formula, ?_⟩
  rw [parse, tokens, read]

/-- After a formula nothing is read but the first token that follows. -/
theorem parse_append (read : parse text = .ok formula)
    (ends : Token.EndsSymbol after.toList) :
    parse (text ++ after) = formula.finish
      ((tokenize after).map (PlacedToken.shift text.utf8ByteSize)) := by
  have derived := parse_eq_ok_iff_derives.mp read
  rw [parse, tokenize_append ends,
    derived.delivers _ (tokenize text) rfl _ []]
  rfl

theorem parse_append_blanks (read : parse text = .ok formula)
    (areBlank : ∀ char ∈ blanks.toList, Text.isBlank char = true) :
    parse (text ++ blanks) = .ok formula := by
  have noTokens : tokenize (blanks ++ "") = [] :=
    tokenize_blanks_append areBlank
  have ends : Token.EndsSymbol (blanks ++ "").toList :=
    endsSymbol_blanks_append areBlank (.inr trivial)
  rw [String.append_empty] at noTokens ends
  rw [parse_append read ends, noTokens]
  rfl

theorem parse_append_token (read : parse text = .ok formula)
    (areBlank : ∀ char ∈ blanks.toList, Text.isBlank char = true)
    (apart : blanks ≠ "" ∨ Token.EndsSymbol after.toList)
    {first : PlacedToken} {rest : List PlacedToken}
    (found : tokenize after = first :: rest) :
    parse (text ++ blanks ++ after) =
      .error ⟨text.utf8ByteSize + blanks.utf8ByteSize + first.offset,
        .trailingInput⟩ := by
  have ends := endsSymbol_blanks_append areBlank apart
  rw [String.append_assoc, parse_append read ends,
    tokenize_blanks_append areBlank, found, Nat.add_assoc]
  rfl

end Texts

/-- An error points at a token, or to the end of the text, and there exactly
when the text ends too early.  Text before trailing input is a formula, and a
closing parenthesis is unexpected only as the first token.

A formula stays one with blanks after it.  With any further token after these,
that token is reported as trailing input. -/
theorem parse_errors_point_into_text (text : String) :
    (∀ error, parse text = .error error →
      ((∃ token ∈ tokenize text, token.offset = error.offset) ∨
        error.offset = text.utf8ByteSize) ∧
      (error.offset = text.utf8ByteSize ↔
        error.failure.message = "unexpected end of input") ∧
      (error.failure.message = "trailing input after formula" →
        ∃ before after, text = before ++ after ∧
          before.utf8ByteSize = error.offset ∧
          ∃ formula, parse before = .ok formula) ∧
      (error.failure.message = "unexpected `)`" →
        ∃ rest, tokenize text = ⟨error.offset, .closeParen⟩ :: rest)) ∧
    ∀ formula, parse text = .ok formula →
      ∀ blanks : String, (∀ char ∈ blanks.toList, Text.isBlank char = true) →
        parse (text ++ blanks) = .ok formula ∧
        ∀ (after : String) (first : PlacedToken) (rest : List PlacedToken),
          blanks ≠ "" ∨ Token.EndsSymbol after.toList →
          tokenize after = first :: rest →
          ∃ error, parse (text ++ blanks ++ after) = .error error ∧
            error.offset =
              text.utf8ByteSize + blanks.utf8ByteSize + first.offset ∧
            error.failure.message = "trailing input after formula" := by
  refine ⟨?_, ?_⟩
  · intro error failed
    have explained := Explains.of_parseTokens failed
    have atEnd := offset_eq_utf8ByteSize_iff failed
    refine ⟨?_, ?_, ?_, ?_⟩
    · by_cases isEnd : error.failure = .unexpectedEnd
      · exact .inr (atEnd.mpr isEnd)
      · exact .inl (explained.exists_token isEnd)
    · rw [atEnd]
      exact (ParseFailure.message_eq_iff (.inl rfl)).symm
    · intro trailing
      apply exists_formula_before failed
      exact (ParseFailure.message_eq_iff (.inr (.inr rfl))).mp trailing
    · intro unexpected
      have isClose : error.failure = .unexpectedClose :=
        (ParseFailure.message_eq_iff (.inr (.inl rfl))).mp unexpected
      rw [isClose] at explained
      exact explained.2
  · intro formula read blanks areBlank
    refine ⟨parse_append_blanks read areBlank, ?_⟩
    intro after first rest apart found
    exact ⟨_, parse_append_token read areBlank apart found, rfl, rfl⟩

example : parse "(or \u00e9 (a))" = .error ⟨8, .unknownConnective "a"⟩ ∧
    parse "(or \u00e9 a)" = .ok (.disj [.atom "\u00e9", .atom "a"]) :=
  ⟨rfl, rfl⟩

end Formula

end PropSat
