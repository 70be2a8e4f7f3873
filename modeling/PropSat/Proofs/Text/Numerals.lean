import Mathlib.Data.Nat.Notation
import PropSat.Text.Numeral

/-!
# Numerals

A text is read as a number exactly when it is a decimal numeral, with or
without a plus sign, of a value below the limit.  Written numbers are such
numerals.
-/

namespace PropSat.Text

/-- The text is the decimal numeral of the value, perhaps after a plus sign
and with zeros in front. -/
def IsNumeral (text : List Char) (value : Nat) : Prop :=
  ∃ digits : List Char, digits ≠ [] ∧
    (text = digits ∨ text = '+' :: digits) ∧
    (∀ char ∈ digits, char.isDigit = true) ∧
    Nat.ofDigitChars 10 digits 0 = value ∧ value < wordLimit

variable {text digits : List Char} {value : Nat}

theorem toNat_of_isDigit {char : Char} (digit : char.isDigit = true) :
    48 ≤ char.toNat ∧ char.toNat ≤ 57 := by
  simpa [Char.isDigit, UInt32.le_iff_toNat_le] using digit

theorem digitsValue?_eq (digits : List Char) (value : Nat) :
    digitsValue? digits value =
      if digits.all Char.isDigit then some (Nat.ofDigitChars 10 digits value)
      else none := by
  induction digits generalizing value with
  | nil => simp [digitsValue?]
  | cons char rest ih =>
      rw [digitsValue?, List.all_cons, Nat.ofDigitChars_cons]
      by_cases digit : char.isDigit = true
      · rw [if_pos digit, ih, digit, Bool.true_and]
      · simp [digit]

theorem unsigned_eq_iff (allDigits : ∀ char ∈ digits, char.isDigit = true) :
    unsigned text = digits ↔ text = digits ∨ text = '+' :: digits := by
  unfold unsigned
  split
  · next rest =>
      have notDigits : '+' :: rest ≠ digits := by
        rintro rfl
        exact absurd (allDigits '+' List.mem_cons_self) (by decide)
      simp [notDigits]
  · next notSigned =>
      have other : text ≠ '+' :: digits := notSigned digits
      simp [other]

theorem number?_eq_some_iff :
    number? text = some value ↔ IsNumeral text value := by
  rw [number?, digitsValue?_eq]
  constructor
  · intro read
    split at read
    · simp at read
    · next nonempty =>
        rw [List.isEmpty_iff] at nonempty
        obtain ⟨found, below⟩ := Option.filter_eq_some_iff.mp read
        split at found
        · next allDigits =>
            have areDigits := List.all_eq_true.mp allDigits
            have written := (unsigned_eq_iff areDigits).mp rfl
            exact ⟨unsigned text, nonempty, written, areDigits,
              Option.some.inj found, of_decide_eq_true below⟩
        · simp at found
  · rintro ⟨digits, nonempty, written, allDigits, worth, below⟩
    rw [(unsigned_eq_iff allDigits).mpr written,
      if_neg (by simpa using nonempty),
      if_pos (List.all_eq_true.mpr allDigits), worth]
    simpa using below

theorem isNumeral_toDigits (below : value < wordLimit) :
    IsNumeral (Nat.toDigits 10 value) value := by
  refine ⟨_, Nat.toDigits_ne_nil, .inl rfl, ?_, ?_, below⟩
  · intro char member
    exact Nat.isDigit_of_mem_toDigits (by decide) (by decide) member
  · exact Nat.ofDigitChars_ten_toDigits

theorem IsNumeral.exists_isDigit (numeral : IsNumeral text value) :
    ∃ char ∈ text, char.isDigit = true := by
  obtain ⟨digits, nonempty, written, allDigits, -⟩ := numeral
  obtain ⟨char, rest, rfl⟩ := List.exists_cons_of_ne_nil nonempty
  refine ⟨char, ?_, allDigits char List.mem_cons_self⟩
  rcases written with rfl | rfl <;> simp

end PropSat.Text
