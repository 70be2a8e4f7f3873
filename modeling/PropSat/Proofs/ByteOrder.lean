import Mathlib.Data.String.Basic
import PropSat.Names

/-!
# Names in the order of their bytes

Names are compared by code point.  UTF-8 is made so that this is the order of
the bytes as well: the lead byte grows with the number of bytes that follow
it, and below equal lead bytes each further byte is one more digit of the code
point in base 64.
-/

namespace PropSat

def utf8Bytes (text : String) : List UInt8 :=
  text.toUTF8.data.toList

theorem utf8Bytes_eq_flatMap (text : String) :
    utf8Bytes text = text.toList.flatMap String.utf8EncodeChar := by
  obtain ⟨chars, rfl⟩ := text.exists_eq_ofList
  rw [utf8Bytes, String.toUTF8_eq_toByteArray, String.toByteArray_ofList,
    String.toList_ofList]
  simp [List.utf8Encode]

namespace CodePoint

/-- How many bytes follow the lead byte of a code point. -/
def continuationCount (code : Nat) : Nat :=
  if code ≤ 0x7f then 0
  else if code ≤ 0x7ff then 1
  else if code ≤ 0xffff then 2
  else 3

/-- The part of a lead byte that says how many bytes follow. -/
def leadMark : Nat → Nat
  | 0 => 0
  | 1 => 0xc0
  | 2 => 0xe0
  | _ => 0xf0

def leadByte (code : Nat) : Nat :=
  code / 64 ^ continuationCount code + leadMark (continuationCount code)

/-- The lowest digits of a code point in base 64, each in a byte. -/
def continuationBytes : Nat → Nat → List UInt8
  | 0, _ => []
  | count + 1, code =>
      UInt8.ofNat (code / 64 ^ count % 64 + 0x80) ::
        continuationBytes count code

variable {first second : Nat} {left right : List UInt8}

theorem leadByte_lt_256 (valid : first < 0x110000) : leadByte first < 256 := by
  unfold leadByte continuationCount
  split_ifs <;> simp only [leadMark] <;> omega

theorem leadByte_lt (below : first < second)
    (different : continuationCount first ≠ continuationCount second) :
    leadByte first < leadByte second := by
  unfold leadByte continuationCount at *
  split_ifs at * <;> simp only [leadMark] <;> omega

theorem ofNat_cons_lt (isByte : second < 256)
    (less : first < second ∨ first = second ∧ left < right) :
    UInt8.ofNat first :: left < UInt8.ofNat second :: right := by
  rw [List.cons_lt_cons_iff, UInt8.lt_iff_toNat_lt, UInt8.toNat_ofNat',
    UInt8.toNat_ofNat']
  rcases less with below | ⟨rfl, later⟩
  · left
    omega
  · right
    exact ⟨rfl, later⟩

/-- The digits above are equal, so the first different one decides. -/
theorem continuationBytes_lt {count : Nat} (below : first < second)
    (same : first / 64 ^ count = second / 64 ^ count) :
    continuationBytes count first ++ left <
      continuationBytes count second ++ right := by
  induction count with
  | zero =>
      rw [Nat.pow_zero, Nat.div_one, Nat.div_one] at same
      omega
  | succ count ih =>
      have quotients : first / 64 ^ count ≤ second / 64 ^ count :=
        Nat.div_le_div_right below.le
      rw [Nat.pow_succ, ← Nat.div_div_eq_div_mul, ← Nat.div_div_eq_div_mul]
        at same
      simp only [continuationBytes, List.cons_append]
      apply ofNat_cons_lt
      · omega
      · rcases Nat.lt_or_eq_of_le quotients with less | equal
        · left
          omega
        · right
          rw [equal]
          exact ⟨rfl, ih equal⟩

theorem val_toNat_lt (char : Char) : char.val.toNat < 0x110000 := by
  rcases char.valid with low | high
  · exact low.trans (by decide)
  · exact high.2

theorem utf8EncodeChar_eq (char : Char) :
    String.utf8EncodeChar char =
      UInt8.ofNat (leadByte char.val.toNat) ::
        continuationBytes (continuationCount char.val.toNat)
          char.val.toNat := by
  have valid := val_toNat_lt char
  unfold String.utf8EncodeChar leadByte continuationCount
  generalize char.val.toNat = code at *
  dsimp only
  split_ifs
  · simp [leadMark, continuationBytes]
  all_goals
    simp only [leadMark, continuationBytes, Nat.reducePow, Nat.div_one]
    congr
    omega

theorem utf8EncodeChar_append_lt {first second : Char} (less : first < second)
    (left right : List UInt8) :
    String.utf8EncodeChar first ++ left <
      String.utf8EncodeChar second ++ right := by
  have below : first.val.toNat < second.val.toNat :=
    UInt32.lt_iff_toNat_lt.mp less
  rw [utf8EncodeChar_eq, utf8EncodeChar_eq, List.cons_append,
    List.cons_append]
  apply ofNat_cons_lt (leadByte_lt_256 (val_toNat_lt second))
  by_cases sameCount : continuationCount first.val.toNat =
    continuationCount second.val.toNat
  · have quotients :
        first.val.toNat / 64 ^ continuationCount second.val.toNat ≤
          second.val.toNat / 64 ^ continuationCount second.val.toNat :=
      Nat.div_le_div_right below.le
    rw [leadByte, leadByte, sameCount]
    rcases Nat.lt_or_eq_of_le quotients with less | equal
    · left
      omega
    · right
      rw [equal]
      exact ⟨rfl, continuationBytes_lt below equal⟩
  · left
    exact leadByte_lt below sameCount

end CodePoint

theorem utf8Bytes_lt_of_lt {first second : String} (less : first < second) :
    utf8Bytes first < utf8Bytes second := by
  rw [utf8Bytes_eq_flatMap, utf8Bytes_eq_flatMap]
  rw [String.lt_iff] at less
  generalize first.toList = chars at *
  generalize second.toList = others at *
  induction less with
  | nil =>
      rw [List.flatMap_nil, List.flatMap_cons, CodePoint.utf8EncodeChar_eq]
      exact .nil
  | rel below => exact CodePoint.utf8EncodeChar_append_lt below _ _
  | cons _ ih => exact List.append_left_lt ih

theorem utf8Bytes_lt_iff {first second : String} :
    utf8Bytes first < utf8Bytes second ↔ first < second := by
  refine ⟨fun less => ?_, utf8Bytes_lt_of_lt⟩
  rcases lt_trichotomy first second with below | rfl | above
  · exact below
  · exact absurd less (List.lt_irrefl _)
  · exact absurd less (List.lt_asymm (utf8Bytes_lt_of_lt above))

theorem NameSet.pairwise_toList (names : NameSet) :
    names.toList.Pairwise fun first second =>
      utf8Bytes first < utf8Bytes second := by
  have ordered := Std.ExtTreeSet.ordered_toList (t := names)
  refine ordered.imp ?_
  intro first second less
  exact utf8Bytes_lt_of_lt (compare_lt_iff_lt.mp less)

end PropSat
