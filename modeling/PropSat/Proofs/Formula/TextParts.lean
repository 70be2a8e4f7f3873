import PropSat.Proofs.Formula.Tokens

/-!
# Parts of a text and their tokens

A text that does not go on with the last symbol of the text before it adds its
own tokens, moved by the length of that text.  The other way round, a text can
be cut off before any of its tokens: what stands before has the tokens that
come before, at their places.
-/

namespace PropSat

/-- The token in a text that `distance` bytes are put in front of. -/
def PlacedToken.shift (distance : Nat) (placed : PlacedToken) : PlacedToken :=
  { placed with offset := distance + placed.offset }

namespace Token

variable {offset : Nat} {text first second : List Char}
  {placed others : List PlacedToken}

theorem EndsSymbol.of_append (ends : EndsSymbol (first ++ second)) :
    EndsSymbol first := by
  cases first with
  | nil => trivial
  | cons char first => exact ends

theorem isDelimiter_of_isBlank {char : Char}
    (blank : Text.isBlank char = true) : isDelimiter char = true := by
  simp [isDelimiter, blank]

namespace CutsAt

theorem append (cuts : CutsAt offset first placed)
    (ends : EndsSymbol second)
    (cutsRest : CutsAt (offset + byteLength first) second others) :
    CutsAt offset (first ++ second) (placed ++ others) := by
  induction cuts with
  | nil => exact cutsRest
  | blank blank _ induction =>
      apply CutsAt.blank blank
      apply induction
      simpa [Nat.add_assoc] using cutsRest
  | openParen _ induction =>
      apply CutsAt.openParen
      apply induction
      rwa [byteLength_cons, ← Nat.add_assoc] at cutsRest
  | closeParen _ induction =>
      apply CutsAt.closeParen
      apply induction
      rwa [byteLength_cons, ← Nat.add_assoc] at cutsRest
  | symbol isRun plain restEnds _ induction =>
      rw [List.append_assoc]
      apply CutsAt.symbol isRun plain (restEnds.append ends)
      apply induction
      rwa [byteLength_append, ← Nat.add_assoc] at cutsRest

/-- Blanks in front of a text only move its tokens. -/
theorem blanks (areBlank : ∀ char ∈ first, Text.isBlank char = true)
    (cuts : CutsAt (offset + byteLength first) second placed) :
    CutsAt offset (first ++ second) placed := by
  induction first generalizing offset with
  | nil => exact cuts
  | cons char first induction =>
      obtain ⟨blank, restBlank⟩ := List.forall_mem_cons.mp areBlank
      apply CutsAt.blank blank
      apply induction restBlank
      rwa [byteLength_cons, ← Nat.add_assoc] at cuts

theorem shift (cuts : CutsAt offset text placed) (distance : Nat) :
    CutsAt (distance + offset) text
      (placed.map (PlacedToken.shift distance)) := by
  induction cuts with
  | nil => exact .nil
  | blank blank _ induction =>
      exact .blank blank (by rwa [Nat.add_assoc])
  | openParen _ induction => exact .openParen induction
  | closeParen _ induction => exact .closeParen induction
  | symbol isRun plain ends _ induction =>
      exact .symbol isRun plain ends (by rwa [Nat.add_assoc])

theorem byteLength_pos (isRun : text ≠ []) : 0 < byteLength text := by
  obtain ⟨char, rest, rfl⟩ := List.exists_cons_of_ne_nil isRun
  rw [byteLength_cons]
  exact Nat.add_pos_left char.utf8Size_pos _

/-- A token takes bytes, so the first one begins before the text ends; the
others are in the rest of the text. -/
theorem offset_lt_of_head {piece rest : List Char} {kind : Token}
    {token : PlacedToken} (isPiece : piece ≠ [])
    (inRest : token ∈ placed →
      token.offset < offset + byteLength piece + byteLength rest)
    (member : token ∈ ⟨offset, kind⟩ :: placed) :
    token.offset < offset + byteLength (piece ++ rest) := by
  rw [byteLength_append, ← Nat.add_assoc]
  rcases List.mem_cons.mp member with rfl | later
  · have positive := byteLength_pos isPiece
    dsimp only
    omega
  · exact inRest later

theorem offset_lt (cuts : CutsAt offset text placed) {token : PlacedToken}
    (member : token ∈ placed) :
    token.offset < offset + byteLength text := by
  induction cuts with
  | nil => cases member
  | blank _ _ induction =>
      have inRest := induction member
      rwa [byteLength_cons, ← Nat.add_assoc]
  | openParen _ induction =>
      exact offset_lt_of_head (List.cons_ne_nil '(' []) induction member
  | closeParen _ induction =>
      exact offset_lt_of_head (List.cons_ne_nil ')' []) induction member
  | symbol isRun _ _ _ induction =>
      exact offset_lt_of_head isRun induction member

/-- What stands in a text before one of its tokens, which begins at the
place. -/
def Before (offset : Nat) (text : List Char) (before : List PlacedToken)
    (place : Nat) : Prop :=
  ∃ first second, text = first ++ second ∧ CutsAt offset first before ∧
    offset + byteLength first = place

/-- A text is cut off before its first token at once, and before another one
as the rest of the text is. -/
theorem before_of_head (piece : List Char) {rest : List Char}
    {head token : PlacedToken} {before after : List PlacedToken}
    (here : head.offset = offset)
    (extend : ∀ first second before, rest = first ++ second →
      CutsAt (offset + byteLength piece) first before →
      CutsAt offset (piece ++ first) (head :: before))
    (inRest : ∀ before, before ++ token :: after = placed →
      Before (offset + byteLength piece) rest before token.offset)
    (same : before ++ token :: after = head :: placed) :
    Before offset (piece ++ rest) before token.offset := by
  cases before with
  | nil =>
      cases same
      exact ⟨[], _, rfl, .nil, here.symm⟩
  | cons _ before =>
      obtain ⟨rfl, sameRest⟩ := List.cons.inj same
      obtain ⟨first, second, rfl, cutsFirst, place⟩ := inRest before sameRest
      refine ⟨piece ++ first, second, (List.append_assoc _ _ _).symm,
        extend first second before rfl cutsFirst, ?_⟩
      rw [byteLength_append, ← place, Nat.add_assoc]

/-- A text can be cut off before any of its tokens. -/
theorem exists_before {before after : List PlacedToken} {token : PlacedToken}
    (cuts : CutsAt offset text (before ++ token :: after)) :
    Before offset text before token.offset := by
  generalize same : before ++ token :: after = placed at cuts
  induction cuts generalizing before with
  | nil => simp at same
  | @blank _ char _ _ blank _ induction =>
      obtain ⟨first, second, rfl, cutsFirst, place⟩ := induction same
      refine ⟨char :: first, second, rfl, .blank blank cutsFirst, ?_⟩
      rw [byteLength_cons, ← place, Nat.add_assoc]
  | openParen _ induction =>
      exact before_of_head ['('] rfl (fun _ _ _ _ => .openParen)
        (fun _ => induction) same
  | closeParen _ induction =>
      exact before_of_head [')'] rfl (fun _ _ _ _ => .closeParen)
        (fun _ => induction) same
  | symbol isRun plain ends _ induction =>
      refine before_of_head _ rfl ?_ (fun _ => induction) same
      rintro first second before rfl cutsFirst
      exact .symbol isRun plain ends.of_append cutsFirst

end CutsAt

end Token

open Token

/-- Text that does not go on with a symbol adds its tokens. -/
theorem tokenize_append {text after : String}
    (ends : EndsSymbol after.toList) :
    tokenize (text ++ after) = tokenize text ++
      (tokenize after).map (PlacedToken.shift text.utf8ByteSize) := by
  have cuts := cutsAt_tokenize text
  have cutsAfter := cutsAt_tokenize after
  have moved := cutsAfter.shift text.utf8ByteSize
  apply cutsAt_iff.mp
  rw [String.toList_append]
  apply cuts.append ends
  rwa [byteLength_toList, Nat.zero_add]

theorem endsSymbol_blanks_append {blanks after : String}
    (areBlank : ∀ char ∈ blanks.toList, Text.isBlank char = true)
    (apart : blanks ≠ "" ∨ EndsSymbol after.toList) :
    EndsSymbol (blanks ++ after).toList := by
  rw [String.toList_append]
  cases characters : blanks.toList with
  | nil =>
      apply apart.resolve_left
      simpa using characters
  | cons char rest =>
      have blank : Text.isBlank char = true := by
        apply areBlank
        rw [characters]
        exact List.mem_cons_self
      exact isDelimiter_of_isBlank blank

theorem tokenize_blanks_append {blanks after : String}
    (areBlank : ∀ char ∈ blanks.toList, Text.isBlank char = true) :
    tokenize (blanks ++ after) =
      (tokenize after).map (PlacedToken.shift blanks.utf8ByteSize) := by
  have cutsAfter := cutsAt_tokenize after
  have moved := cutsAfter.shift blanks.utf8ByteSize
  apply cutsAt_iff.mp
  rw [String.toList_append]
  apply CutsAt.blanks areBlank
  rwa [byteLength_toList, Nat.zero_add]

theorem offset_lt_of_mem_tokenize {text : String} {token : PlacedToken}
    (member : token ∈ tokenize text) : token.offset < text.utf8ByteSize := by
  have cuts := cutsAt_tokenize text
  have below := cuts.offset_lt member
  rwa [byteLength_toList, Nat.zero_add] at below

/-- The text before a token has the tokens before it. -/
theorem exists_text_before {text : String} {before after : List PlacedToken}
    {token : PlacedToken}
    (found : tokenize text = before ++ token :: after) :
    ∃ first second, text = first ++ second ∧
      first.utf8ByteSize = token.offset ∧ tokenize first = before := by
  obtain ⟨first, second, split, cuts, place⟩ :=
    (cutsAt_iff.mpr found).exists_before
  refine ⟨String.ofList first, String.ofList second, ?_, ?_, ?_⟩
  · rw [← String.ofList_append, ← split, String.ofList_toList]
  · rw [← byteLength_eq, ← place, Nat.zero_add]
  · apply cutsAt_iff.mp
    rwa [String.toList_ofList]

end PropSat
