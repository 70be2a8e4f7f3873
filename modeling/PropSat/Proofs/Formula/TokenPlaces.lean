import PropSat.Proofs.Formula.TextParts

/-!
# Tokens and the places of a text

A text has a token wherever a parenthesis stands and wherever a run of other
characters that are not blank stands between delimiters or ends of the text.
The tokens come by their places, each stands in the text as it says, and only
blanks lie between them.

The scan can keep the place where a symbol has begun instead of its
characters, and cut the symbol out of the text at the next delimiter.  A cut
fails unless both of its ends are boundaries of characters, so what has to be
shown of this scan is that it has a result at all.
-/

namespace PropSat

namespace Text

/-- The part of a text between two byte offsets.  There is none unless both
are boundaries of characters of the text, in this order. -/
def slice? (text : String) (start stop : Nat) : Option String :=
  if within : String.Pos.Raw.IsValid text ⟨start⟩ ∧
      String.Pos.Raw.IsValid text ⟨stop⟩ ∧ start ≤ stop then
    some (text.extract (text.pos ⟨start⟩ within.1)
      (text.pos ⟨stop⟩ within.2.1))
  else none

theorem slice?_append (before part after : String) :
    slice? (before ++ part ++ after) before.utf8ByteSize
        (before.utf8ByteSize + part.utf8ByteSize) = some part := by
  have starts : String.Pos.Raw.IsValid (before ++ part ++ after)
      ⟨before.utf8ByteSize⟩ := by
    rw [String.append_assoc]
    exact String.Pos.Raw.isValid_rawEndPos.append_right _
  have stops : String.Pos.Raw.IsValid (before ++ part ++ after)
      ⟨before.utf8ByteSize + part.utf8ByteSize⟩ := by
    rw [← String.utf8ByteSize_append]
    exact String.Pos.Raw.isValid_rawEndPos.append_right _
  rw [slice?, dif_pos ⟨starts, stops, Nat.le_add_right _ _⟩,
    Option.some_inj, ← String.toByteArray_inj, String.toByteArray_extract,
    String.offset_pos, String.offset_pos, String.append_assoc,
    String.toByteArray_append]
  have fromPart := ByteArray.extract_append_size_add'
    (a := before.toByteArray) (b := (part ++ after).toByteArray) (i := 0)
    (j := part.utf8ByteSize) String.size_toByteArray.symm
  rw [Nat.add_zero] at fromPart
  rw [fromPart, String.toByteArray_append,
    ByteArray.extract_append_eq_left String.size_toByteArray.symm]

end Text

namespace Token

variable {offset : Nat} {text before after run rest : List Char}
  {placed others : List PlacedToken} {token : PlacedToken}

/-- The characters between what stands before and after them are a symbol: a
run without delimiters that nothing but a delimiter stands next to. -/
structure IsMaximalRun (before run after : List Char) : Prop where
  ne_nil : run ≠ []
  plain : ∀ char ∈ run, isDelimiter char = false
  begins : EndsSymbol before.reverse
  ends : EndsSymbol after

/-- Between what stands before and after it the token is as long as it can
be. -/
def IsWhole (before after : List Char) : Token → Prop
  | .openParen => True
  | .closeParen => True
  | .symbol run => IsMaximalRun before run.toList after

/-- The token stands at its place in the text, which begins at the offset. -/
def StandsIn (offset : Nat) (text : List Char) (token : PlacedToken) : Prop :=
  ∃ before after, text = before ++ token.token.text.toList ++ after ∧
    offset + byteLength before = token.offset ∧
    token.token.IsWhole before after

theorem not_endsSymbol_append (isRun : run ≠ [])
    (plain : ∀ char ∈ run, isDelimiter char = false) :
    ¬ EndsSymbol (run ++ rest) := by
  obtain ⟨char, tail, rfl⟩ := List.exists_cons_of_ne_nil isRun
  intro ends
  have delimiter : isDelimiter char = true := ends
  rw [plain char List.mem_cons_self] at delimiter
  cases delimiter

/-- What stands in the text after a piece stands in the whole text, unless a
symbol of the text goes on with the piece at its start. -/
theorem StandsIn.append_left (piece : List Char)
    (stands : StandsIn (offset + byteLength piece) rest token)
    (apart : EndsSymbol piece.reverse ∨ EndsSymbol rest) :
    StandsIn offset (piece ++ rest) token := by
  obtain ⟨before, after, rfl, place, whole⟩ := stands
  refine ⟨piece ++ before, after, by simp, ?_, ?_⟩
  · rw [byteLength_append, ← Nat.add_assoc, place]
  · cases kind : token.token with
    | openParen => trivial
    | closeParen => trivial
    | symbol run =>
        rw [kind] at whole apart
        obtain ⟨isRun, plain, begins, ends⟩ := whole
        refine ⟨isRun, plain, ?_, ends⟩
        rw [List.reverse_append]
        cases backwards : before.reverse with
        | nil =>
            obtain rfl := List.reverse_eq_nil_iff.mp backwards
            exact apart.resolve_right (not_endsSymbol_append isRun plain)
        | cons char tail =>
            rw [backwards] at begins
            exact begins

/-- A token stands at the start of the text that begins with it. -/
theorem standsIn_append (offset : Nat) (kind : Token)
    (whole : kind.IsWhole [] rest) :
    StandsIn offset (kind.text.toList ++ rest) ⟨offset, kind⟩ :=
  ⟨[], rest, rfl, rfl, whole⟩

theorem IsWhole.apart {kind : Token}
    (whole : kind.IsWhole before rest) :
    EndsSymbol before.reverse ∨ EndsSymbol (kind.text.toList ++ rest) := by
  cases kind with
  | openParen => exact .inr rfl
  | closeParen => exact .inr rfl
  | symbol run => exact .inl whole.begins

namespace CutsAt

theorem standsIn (cuts : CutsAt offset text placed) (member : token ∈ placed) :
    StandsIn offset text token := by
  induction cuts with
  | nil => cases member
  | blank blank _ induction =>
      exact (induction member).append_left [_]
        (.inl (isDelimiter_of_isBlank blank))
  | openParen _ induction =>
      rcases List.mem_cons.mp member with rfl | later
      · exact standsIn_append _ .openParen trivial
      · exact (induction later).append_left ['('] (.inl rfl)
  | closeParen _ induction =>
      rcases List.mem_cons.mp member with rfl | later
      · exact standsIn_append _ .closeParen trivial
      · exact (induction later).append_left [')'] (.inl rfl)
  | @symbol offset run rest _ isRun plain ends _ induction =>
      rcases List.mem_cons.mp member with rfl | later
      · have whole :
            (Token.symbol (String.ofList run)).IsWhole [] rest := by
          rw [IsWhole, String.toList_ofList]
          exact ⟨isRun, plain, trivial, ends⟩
        have stands := standsIn_append offset _ whole
        rwa [Token.text, String.toList_ofList] at stands
      · exact (induction later).append_left run (.inr ends)

theorem le_offset (cuts : CutsAt offset text placed)
    (member : token ∈ placed) : offset ≤ token.offset := by
  obtain ⟨before, _, _, place, _⟩ := cuts.standsIn member
  omega

/-- A token that begins a text is before all tokens of the rest. -/
theorem pairwise_cons {piece : List Char} {kind : Token}
    (isPiece : piece ≠ [])
    (cuts : CutsAt (offset + byteLength piece) rest placed)
    (increasing : placed.Pairwise fun first second =>
      first.offset < second.offset) :
    (⟨offset, kind⟩ :: placed).Pairwise fun first second =>
      first.offset < second.offset := by
  refine List.pairwise_cons.mpr ⟨?_, increasing⟩
  intro later member
  have behind := cuts.le_offset member
  have positive := byteLength_pos isPiece
  dsimp only
  omega

theorem pairwise_offset (cuts : CutsAt offset text placed) :
    placed.Pairwise fun first second => first.offset < second.offset := by
  induction cuts with
  | nil => exact .nil
  | blank _ _ induction => exact induction
  | openParen cuts induction =>
      exact pairwise_cons (List.cons_ne_nil '(' []) cuts induction
  | closeParen cuts induction =>
      exact pairwise_cons (List.cons_ne_nil ')' []) cuts induction
  | symbol isRun _ _ cuts induction => exact pairwise_cons isRun cuts induction

/-- The tokens leave out the blanks of a text and nothing else. -/
theorem flatMap_text (cuts : CutsAt offset text placed) :
    placed.flatMap (fun token => token.token.text.toList) =
      text.filter fun char => !Text.isBlank char := by
  induction cuts with
  | nil => rfl
  | blank blank _ induction => simpa [blank] using induction
  | openParen _ induction =>
      have notBlank : Text.isBlank '(' = false := by decide
      simpa [Token.text, notBlank] using induction
  | closeParen _ induction =>
      have notBlank : Text.isBlank ')' = false := by decide
      simpa [Token.text, notBlank] using induction
  | @symbol _ run _ _ _ plain _ _ induction =>
      have noBlank : run.filter (fun char => !Text.isBlank char) = run := by
        apply List.filter_eq_self.mpr
        intro char member
        simp [(not_isDelimiter_iff.mp (plain char member)).2.2]
      rw [List.flatMap_cons, induction, List.filter_append, noBlank,
        Token.text, String.toList_ofList]

theorem unique (cuts : CutsAt offset text placed)
    (cutsToo : CutsAt offset text others) : placed = others := by
  have found := cuts.scan_eq #[]
  have foundToo := cutsToo.scan_eq #[]
  rw [found] at foundToo
  simpa using foundToo

/-- A delimiter leaves the tokens of the text after it as they are. -/
theorem exists_cons_delimiter {char : Char}
    (delimiter : isDelimiter char = true)
    (cuts : CutsAt (offset + char.utf8Size) text placed) :
    ∃ front, CutsAt offset (char :: text) (front ++ placed) := by
  by_cases isOpen : char = '('
  · subst isOpen
    exact ⟨[_], .openParen cuts⟩
  · by_cases isClose : char = ')'
    · subst isClose
      exact ⟨[_], .closeParen cuts⟩
    · have blank : Text.isBlank char = true := by
        simpa [isDelimiter, isOpen, isClose] using delimiter
      exact ⟨[], .blank blank cuts⟩

theorem exists_append_of_endsSymbol {first second : List Char}
    (ends : EndsSymbol second)
    (cuts : CutsAt (offset + byteLength first) second placed) :
    ∃ front, CutsAt offset (first ++ second) (front ++ placed) := by
  obtain ⟨_, cutsFirst⟩ := exists_cuts first
  obtain ⟨front, cutsFirst, _⟩ := cutsFirst.exists_cutsAt offset
  exact ⟨front, cutsFirst.append ends cuts⟩

/-- The tokens of a text stay when another one is put in front of it, as long
as no symbol goes on from that one into it. -/
theorem exists_append {first second : List Char}
    (apart : EndsSymbol first.reverse ∨ EndsSymbol second)
    (cuts : CutsAt (offset + byteLength first) second placed) :
    ∃ front, CutsAt offset (first ++ second) (front ++ placed) := by
  rcases apart with begins | ends
  · rcases first.eq_nil_or_concat with rfl | ⟨start, char, rfl⟩
    · exact ⟨[], cuts⟩
    · rw [List.concat_eq_append] at *
      have delimiter : isDelimiter char = true := by
        simpa [EndsSymbol] using begins
      have ends : EndsSymbol (char :: second) := delimiter
      rw [byteLength_append, ← Nat.add_assoc] at cuts
      obtain ⟨here, cutsHere⟩ := exists_cons_delimiter delimiter cuts
      obtain ⟨front, cutsAll⟩ := exists_append_of_endsSymbol ends cutsHere
      refine ⟨front ++ here, ?_⟩
      rwa [List.append_assoc, List.append_assoc]
  · exact exists_append_of_endsSymbol ends cuts

/-- A token and the tokens of the text behind it are those of the text that
begins with it. -/
theorem cons_whole {kind : Token} (whole : kind.IsWhole before rest)
    (cuts : CutsAt (offset + byteLength kind.text.toList) rest placed) :
    CutsAt offset (kind.text.toList ++ rest) (⟨offset, kind⟩ :: placed) := by
  cases kind with
  | openParen => exact .openParen cuts
  | closeParen => exact .closeParen cuts
  | symbol run =>
      obtain ⟨isRun, plain, _, ends⟩ := whole
      have cutsAll := CutsAt.symbol isRun plain ends cuts
      rwa [String.ofList_toList] at cutsAll

/-- A token that stands in a text is one of those it falls into. -/
theorem mem_of_standsIn (cuts : CutsAt offset text placed)
    (stands : StandsIn offset text token) : token ∈ placed := by
  obtain ⟨before, after, rfl, place, whole⟩ := stands
  obtain ⟨_, cutsAfter⟩ := exists_cuts after
  obtain ⟨others, cutsAfter, _⟩ := cutsAfter.exists_cutsAt
    (token.offset + byteLength token.token.text.toList)
  have cutsHere := cons_whole whole cutsAfter
  rw [← place] at cutsHere
  obtain ⟨front, cutsAll⟩ := exists_append whole.apart cutsHere
  rw [← List.append_assoc] at cutsAll
  rw [cuts.unique cutsAll, place]
  simp

end CutsAt

/-- The tokens with the symbol that has begun, if any, cut out of the text up
to the offset. -/
def cutSymbol (text : String) (begun : Option Nat) (stop : Nat)
    (found : Array PlacedToken) : Option (Array PlacedToken) :=
  match begun with
  | none => some found
  | some start =>
      (Text.slice? text start stop).map fun run =>
        found.push ⟨start, .symbol run⟩

/-- Goes through the characters of the text from the offset on, with the place
where a symbol has begun. -/
def scanInPlace (text : String) :
    List Char → Nat → Option Nat → Array PlacedToken →
      Option (Array PlacedToken)
  | [], _, begun, found => cutSymbol text begun text.utf8ByteSize found
  | char :: rest, offset, begun, found =>
      let next := offset + char.utf8Size
      if isDelimiter char then do
        let found ← cutSymbol text begun offset found
        if char = '(' then
          scanInPlace text rest next none (found.push ⟨offset, .openParen⟩)
        else if char = ')' then
          scanInPlace text rest next none (found.push ⟨offset, .closeParen⟩)
        else scanInPlace text rest next none found
      else scanInPlace text rest next (begun.or (some offset)) found

theorem scanInPlace_run {whole : String}
    (plain : ∀ char ∈ run, isDelimiter char = false) (offset start : Nat)
    (found : Array PlacedToken) :
    scanInPlace whole (run ++ rest) offset (some start) found =
      scanInPlace whole rest (offset + byteLength run) (some start) found := by
  induction run generalizing offset with
  | nil => rfl
  | cons char run induction =>
      obtain ⟨here, inRun⟩ := List.forall_mem_cons.mp plain
      rw [List.cons_append, scanInPlace, if_neg (by simp [here]),
        Option.some_or, induction inRun, byteLength_cons, Nat.add_assoc]

theorem scanInPlace_cut {whole symbol : String} {start stop : Nat}
    (ends : EndsSymbol rest)
    (place : stop + byteLength rest = whole.utf8ByteSize)
    (cut : Text.slice? whole start stop = some symbol)
    (found : Array PlacedToken) :
    scanInPlace whole rest stop (some start) found =
      scanInPlace whole rest stop none
        (found.push ⟨start, .symbol symbol⟩) := by
  cases rest with
  | nil =>
      obtain rfl : stop = whole.utf8ByteSize := place
      simp [scanInPlace, cutSymbol, cut]
  | cons char rest =>
      have delimiter : isDelimiter char = true := ends
      simp [scanInPlace, cutSymbol, cut, delimiter]

theorem slice?_of_split {whole : String}
    (split : whole.toList = before ++ run ++ rest) :
    Text.slice? whole (byteLength before) (byteLength before + byteLength run) =
      some (String.ofList run) := by
  have isWhole : whole =
      String.ofList before ++ String.ofList run ++ String.ofList rest := by
    rw [← String.ofList_append, ← String.ofList_append, ← split,
      String.ofList_toList]
  rw [isWhole, byteLength_eq, byteLength_eq]
  exact Text.slice?_append _ _ _

/-- The scan never fails to cut out a symbol and adds the tokens that the rest
of the text falls into. -/
theorem CutsAt.scanInPlace_eq {whole : String}
    (cuts : CutsAt offset rest placed) (split : whole.toList = before ++ rest)
    (place : byteLength before = offset) (found : Array PlacedToken) :
    (scanInPlace whole rest offset none found).map Array.toList =
      some (found.toList ++ placed) := by
  induction cuts generalizing before found with
  | nil => simp [scanInPlace, cutSymbol]
  | @blank _ char _ _ blank _ induction =>
      obtain ⟨notOpen, notClose⟩ := ne_parens_of_isBlank blank
      rw [List.append_cons] at split
      have later := induction split (by simp [place]) found
      simpa [scanInPlace, cutSymbol, isDelimiter_of_isBlank blank, notOpen,
        notClose] using later
  | @openParen offset _ _ _ induction =>
      have size : '('.utf8Size = 1 := rfl
      rw [List.append_cons] at split
      have later := induction split (by simp [place, size])
        (found.push ⟨offset, .openParen⟩)
      simpa [scanInPlace, cutSymbol, isDelimiter, size] using later
  | @closeParen offset _ _ _ induction =>
      have size : ')'.utf8Size = 1 := rfl
      rw [List.append_cons] at split
      have later := induction split (by simp [place, size])
        (found.push ⟨offset, .closeParen⟩)
      simpa [scanInPlace, cutSymbol, isDelimiter, size] using later
  | @symbol offset run rest _ isRun plain ends _ induction =>
      obtain ⟨char, tail, rfl⟩ := List.exists_cons_of_ne_nil isRun
      obtain ⟨here, inTail⟩ := List.forall_mem_cons.mp plain
      rw [← List.append_assoc] at split
      have later := induction split (by simp [place])
        (found.push ⟨offset, .symbol (String.ofList (char :: tail))⟩)
      have cut := slice?_of_split split
      rw [place] at cut
      have inText : offset + byteLength (char :: tail) + byteLength rest =
          whole.utf8ByteSize := by
        rw [← byteLength_toList, split]
        simp [place, Nat.add_assoc]
      rw [List.cons_append, scanInPlace, if_neg (by simp [here]),
        Option.none_or, scanInPlace_run inTail, Nat.add_assoc,
        ← byteLength_cons, scanInPlace_cut ends inText cut, later]
      simp

end Token

open Token

/-- The tokens found by a scan that cuts the symbols out of the text. -/
def tokenizeInPlace (text : String) : Option (List PlacedToken) :=
  (scanInPlace text text.toList 0 none #[]).map Array.toList

theorem tokenizeInPlace_eq (text : String) :
    tokenizeInPlace text = some (tokenize text) := by
  have cuts := cutsAt_tokenize text
  exact cuts.scanInPlace_eq (List.nil_append _).symm rfl #[]

theorem mem_tokenize_iff {text : String} {placed : PlacedToken} :
    placed ∈ tokenize text ↔
      ∃ before after, text = before ++ placed.token.text ++ after ∧
        before.utf8ByteSize = placed.offset ∧
        placed.token.IsWhole before.toList after.toList := by
  have cuts := cutsAt_tokenize text
  constructor
  · intro member
    obtain ⟨before, after, split, place, whole⟩ := cuts.standsIn member
    refine ⟨String.ofList before, String.ofList after, ?_, ?_, ?_⟩
    · rw [← String.toList_inj, split]
      simp
    · rw [← byteLength_eq, ← place, Nat.zero_add]
    · simpa using whole
  · rintro ⟨before, after, rfl, place, whole⟩
    apply cuts.mem_of_standsIn
    refine ⟨before.toList, after.toList, ?_, ?_, whole⟩
    · simp
    · rw [byteLength_toList, Nat.zero_add, place]

/-- The tokens of a text come by increasing places.  There is one for each
parenthesis and one for each maximal run of characters that are neither blank
nor parentheses, and none besides.  The part of the text from the place of a
token on, as long as the token, lies between boundaries of characters and is
the token.  One after another the tokens are the text without its blanks.

A scan that cuts the symbols out of the text by their places never fails and
finds the same tokens. -/
theorem tokens_cover_text (text : String) :
    ((tokenize text).Pairwise fun first second =>
      first.offset < second.offset) ∧
    (∀ offset,
      (⟨offset, .openParen⟩ ∈ tokenize text ↔
        ∃ before after, text = before ++ "(" ++ after ∧
          before.utf8ByteSize = offset) ∧
      (⟨offset, .closeParen⟩ ∈ tokenize text ↔
        ∃ before after, text = before ++ ")" ++ after ∧
          before.utf8ByteSize = offset) ∧
      ∀ run, ⟨offset, .symbol run⟩ ∈ tokenize text ↔
        ∃ before after, text = before ++ run ++ after ∧
          before.utf8ByteSize = offset ∧
          IsMaximalRun before.toList run.toList after.toList) ∧
    (∀ placed ∈ tokenize text,
      Text.slice? text placed.offset
          (placed.offset + placed.token.text.utf8ByteSize) =
        some placed.token.text) ∧
    String.join ((tokenize text).map fun placed => placed.token.text) =
      String.ofList (text.toList.filter fun char => !Text.isBlank char) ∧
    tokenizeInPlace text = some (tokenize text) := by
  have cuts := cutsAt_tokenize text
  refine ⟨cuts.pairwise_offset, ?_, ?_, ?_, tokenizeInPlace_eq text⟩
  · intro offset
    simp [mem_tokenize_iff, Token.text, IsWhole]
  · intro placed member
    obtain ⟨before, after, rfl, place, _⟩ := mem_tokenize_iff.mp member
    rw [← place]
    exact Text.slice?_append before placed.token.text after
  · rw [← String.toList_inj, String.toList_join, String.toList_ofList,
      List.flatMap_map, cuts.flatMap_text]

/-- Places count bytes: the accented letter takes two of them, the wide blank
three. -/
example : tokenize "(\u00e9\u3000x)" =
    [⟨0, .openParen⟩, ⟨1, .symbol "\u00e9"⟩, ⟨6, .symbol "x"⟩,
      ⟨7, .closeParen⟩] := by
  decide

end PropSat
