import Mathlib.Data.List.TakeWhile
import PropSat.Formula.Grammar

/-!
# The tokens of a text

Scanning a text cuts it into the tokens that it falls into, and there is one
way only in which a text falls into tokens.  A symbol that has begun is ended
by the next delimiter or by the end of the text, so after a run of other
characters the scan goes on as if the symbol were finished already.

`CutsAt` is the same relation with the place of every token, so that a text
can be cut off before a token, or lengthened, without a look at the scan.
-/

namespace PropSat

namespace Token

variable {text rest run : List Char} {tokens : List Token}
  {placed : List PlacedToken}

def byteLength : List Char → Nat
  | [] => 0
  | char :: text => char.utf8Size + byteLength text

@[simp]
theorem byteLength_nil : byteLength [] = 0 := rfl

@[simp]
theorem byteLength_cons (char : Char) (text : List Char) :
    byteLength (char :: text) = char.utf8Size + byteLength text := rfl

@[simp]
theorem byteLength_append (first second : List Char) :
    byteLength (first ++ second) = byteLength first + byteLength second := by
  induction first with
  | nil => simp
  | cons char first induction =>
      rw [List.cons_append, byteLength_cons, byteLength_cons, induction,
        Nat.add_assoc]

theorem byteLength_eq (text : List Char) :
    byteLength text = (String.ofList text).utf8ByteSize := by
  induction text with
  | nil => rfl
  | cons char text induction =>
      rw [byteLength_cons, induction, String.ofList_cons,
        String.utf8ByteSize_append, String.utf8ByteSize_singleton]

@[simp]
theorem byteLength_toList (text : String) :
    byteLength text.toList = text.utf8ByteSize := by
  rw [byteLength_eq, String.ofList_toList]

/-- The text, which begins at the offset, falls into the tokens, each at the
offset of its first byte. -/
inductive CutsAt : Nat → List Char → List PlacedToken → Prop where
  | nil {offset : Nat} : CutsAt offset [] []
  | blank {offset : Nat} {char : Char} {text : List Char}
      {placed : List PlacedToken} :
      Text.isBlank char = true →
      CutsAt (offset + char.utf8Size) text placed →
      CutsAt offset (char :: text) placed
  | openParen {offset : Nat} {text : List Char}
      {placed : List PlacedToken} :
      CutsAt (offset + 1) text placed →
      CutsAt offset ('(' :: text) (⟨offset, .openParen⟩ :: placed)
  | closeParen {offset : Nat} {text : List Char}
      {placed : List PlacedToken} :
      CutsAt (offset + 1) text placed →
      CutsAt offset (')' :: text) (⟨offset, .closeParen⟩ :: placed)
  | symbol {offset : Nat} {run rest : List Char}
      {placed : List PlacedToken} :
      run ≠ [] →
      (∀ char ∈ run, isDelimiter char = false) →
      EndsSymbol rest →
      CutsAt (offset + byteLength run) rest placed →
      CutsAt offset (run ++ rest)
        (⟨offset, .symbol (String.ofList run)⟩ :: placed)

theorem not_isDelimiter_iff {char : Char} :
    isDelimiter char = false ↔
      char ≠ '(' ∧ char ≠ ')' ∧ Text.isBlank char = false := by
  simp [isDelimiter, and_assoc]

theorem ne_parens_of_isBlank {char : Char}
    (blank : Text.isBlank char = true) : char ≠ '(' ∧ char ≠ ')' := by
  constructor
  · rintro rfl
    exact absurd blank (by decide)
  · rintro rfl
    exact absurd blank (by decide)

theorem EndsSymbol.append (ends : EndsSymbol text)
    (restEnds : EndsSymbol rest) : EndsSymbol (text ++ rest) := by
  cases text with
  | nil => exact restEnds
  | cons char text => exact ends

/-- A run of other characters belongs to the symbol that has begun. -/
theorem scan_run (plain : ∀ char ∈ run, isDelimiter char = false)
    (rest : List Char) (offset : Nat) (begun : Pending) (found : Array PlacedToken) :
    scan (run ++ rest) offset (some begun) found =
      scan rest (offset + byteLength run)
        (some ⟨begun.offset, begun.text ++ String.ofList run⟩) found := by
  induction run generalizing offset begun with
  | nil => simp
  | cons char run induction =>
      obtain ⟨here, inRun⟩ := List.forall_mem_cons.mp plain
      obtain ⟨notOpen, notClose, notBlank⟩ := not_isDelimiter_iff.mp here
      rw [List.cons_append, scan, if_neg notOpen, if_neg notClose,
        if_neg (by simp [notBlank]), extendSymbol, induction inRun,
        byteLength_cons, Nat.add_assoc]
      congr 3
      apply String.ext
      simp

/-- At a delimiter, and at the end, a symbol that has begun is one more
token. -/
theorem scan_endSymbol (ends : EndsSymbol rest) (offset : Nat)
    (begun : Pending) (found : Array PlacedToken) :
    scan rest offset (some begun) found =
      scan rest offset none
        (found.push ⟨begun.offset, .symbol begun.text⟩) := by
  cases rest with
  | nil => rfl
  | cons char rest =>
      rw [scan, scan]
      simp only [endSymbol]
      split
      · rfl
      · split
        · rfl
        · split
          · rfl
          · next notOpen notClose notBlank =>
              have delimiter : isDelimiter char = true := ends
              simp [isDelimiter, notOpen, notClose, notBlank] at delimiter

theorem scan_symbol (isRun : run ≠ [])
    (plain : ∀ char ∈ run, isDelimiter char = false)
    (ends : EndsSymbol rest) (offset : Nat) (found : Array PlacedToken) :
    scan (run ++ rest) offset none found =
      scan rest (offset + byteLength run) none
        (found.push ⟨offset, .symbol (String.ofList run)⟩) := by
  cases run with
  | nil => exact absurd rfl isRun
  | cons char run =>
      obtain ⟨here, inRun⟩ := List.forall_mem_cons.mp plain
      obtain ⟨notOpen, notClose, notBlank⟩ := not_isDelimiter_iff.mp here
      rw [List.cons_append, scan, if_neg notOpen, if_neg notClose,
        if_neg (by simp [notBlank]), extendSymbol, scan_run inRun,
        scan_endSymbol ends, byteLength_cons, Nat.add_assoc]
      congr 4
      apply String.ext
      simp

/-- The scan adds the tokens that the rest of the text falls into. -/
theorem CutsAt.scan_eq {offset : Nat} (cuts : CutsAt offset text placed)
    (found : Array PlacedToken) :
    (scan text offset none found).toList = found.toList ++ placed := by
  induction cuts generalizing found with
  | nil => simp [scan, endSymbol]
  | blank blank _ induction =>
      obtain ⟨notOpen, notClose⟩ := ne_parens_of_isBlank blank
      rw [scan, if_neg notOpen, if_neg notClose, if_pos blank, induction]
      rfl
  | openParen _ induction =>
      rw [scan, if_pos rfl]
      exact (induction _).trans (by simp [endSymbol])
  | closeParen _ induction =>
      rw [scan, if_neg (by decide), if_pos rfl]
      exact (induction _).trans (by simp [endSymbol])
  | symbol isRun plain ends _ induction =>
      rw [scan_symbol isRun plain ends, induction]
      simp

/-- Where a text falls into tokens, each of them has its place. -/
theorem Cuts.exists_cutsAt (cuts : Cuts text tokens) (offset : Nat) :
    ∃ placed, CutsAt offset text placed ∧
      placed.map PlacedToken.token = tokens := by
  induction cuts generalizing offset with
  | nil => exact ⟨[], .nil, rfl⟩
  | @blank char _ _ blank _ induction =>
      obtain ⟨placed, cuts, same⟩ := induction (offset + char.utf8Size)
      exact ⟨placed, .blank blank cuts, same⟩
  | openParen _ induction =>
      obtain ⟨placed, cuts, rfl⟩ := induction (offset + 1)
      exact ⟨_, .openParen cuts, rfl⟩
  | closeParen _ induction =>
      obtain ⟨placed, cuts, rfl⟩ := induction (offset + 1)
      exact ⟨_, .closeParen cuts, rfl⟩
  | @symbol run _ _ isRun plain ends _ induction =>
      obtain ⟨placed, cuts, rfl⟩ := induction (offset + byteLength run)
      exact ⟨_, .symbol isRun plain ends cuts, rfl⟩

theorem endsSymbol_dropWhile (text : List Char) :
    EndsSymbol (text.dropWhile fun char => !isDelimiter char) := by
  induction text with
  | nil => trivial
  | cons char rest induction =>
      cases delimiter : isDelimiter char with
      | true => simp [delimiter, EndsSymbol]
      | false => simpa [List.dropWhile_cons, delimiter] using induction

theorem exists_run {char : Char} (plain : isDelimiter char = false)
    (text : List Char) :
    ∃ run rest, char :: text = run ++ rest ∧ run ≠ [] ∧
      (∀ other ∈ run, isDelimiter other = false) ∧ EndsSymbol rest ∧
        rest.length ≤ text.length := by
  refine ⟨char :: text.takeWhile fun other => !isDelimiter other,
    text.dropWhile fun other => !isDelimiter other, ?_, ?_, ?_,
    endsSymbol_dropWhile text, ?_⟩
  · simp [List.takeWhile_append_dropWhile]
  · simp
  · intro other member
    rcases List.mem_cons.mp member with rfl | inRun
    · exact plain
    · simpa using List.mem_takeWhile_imp inRun
  · exact (List.dropWhile_suffix _).length_le

theorem exists_cuts (text : List Char) : ∃ tokens, Cuts text tokens := by
  match text with
  | [] => exact ⟨[], .nil⟩
  | char :: text =>
      by_cases isOpen : char = '('
      · subst isOpen
        obtain ⟨tokens, cuts⟩ := exists_cuts text
        exact ⟨_, .openParen cuts⟩
      · by_cases isClose : char = ')'
        · subst isClose
          obtain ⟨tokens, cuts⟩ := exists_cuts text
          exact ⟨_, .closeParen cuts⟩
        · cases blank : Text.isBlank char with
          | true =>
              obtain ⟨tokens, cuts⟩ := exists_cuts text
              exact ⟨_, .blank blank cuts⟩
          | false =>
              have plain := not_isDelimiter_iff.mpr ⟨isOpen, isClose, blank⟩
              obtain ⟨run, rest, split, isRun, inRun, ends, shorter⟩ :=
                exists_run plain text
              have below : rest.length < (char :: text).length :=
                Nat.lt_succ_of_le shorter
              obtain ⟨tokens, cuts⟩ := exists_cuts rest
              rw [split]
              exact ⟨_, .symbol isRun inRun ends cuts⟩
  termination_by text.length

/-- Scanning finds the tokens with their places. -/
theorem cutsAt_iff {text : String} :
    CutsAt 0 text.toList placed ↔ tokenize text = placed := by
  have scanned {others : List PlacedToken}
      (cuts : CutsAt 0 text.toList others) : tokenize text = others := by
    simpa [tokenize] using cuts.scan_eq #[]
  constructor
  · exact scanned
  · rintro rfl
    obtain ⟨_, cuts⟩ := exists_cuts text.toList
    obtain ⟨others, cutsAt, _⟩ := cuts.exists_cutsAt 0
    rw [scanned cutsAt]
    exact cutsAt

theorem cutsAt_tokenize (text : String) :
    CutsAt 0 text.toList (tokenize text) :=
  cutsAt_iff.mpr rfl

/-- The tokens of a text are those that it falls into. -/
theorem cuts_iff {text : String} :
    Cuts text.toList tokens ↔
      (tokenize text).map PlacedToken.token = tokens := by
  have scanned {others : List Token} (cuts : Cuts text.toList others) :
      (tokenize text).map PlacedToken.token = others := by
    obtain ⟨placed, cutsAt, same⟩ := cuts.exists_cutsAt 0
    rw [cutsAt_iff.mp cutsAt, same]
  constructor
  · exact scanned
  · rintro rfl
    obtain ⟨others, cuts⟩ := exists_cuts text.toList
    rw [scanned cuts]
    exact cuts

end Token

end PropSat
