/-!
# Decimal numerals

Reading natural numbers below 2^64 written in decimal: an optional plus sign,
then one or more ASCII digits, leading zeros allowed.
-/

namespace PropSat.Text

def wordLimit : Nat := UInt64.size

/-- The value of a list of decimal digits that follow others worth `value`. -/
def digitsValue? : List Char → Nat → Option Nat
  | [], value => some value
  | char :: rest, value =>
      if char.isDigit then
        digitsValue? rest (10 * value + (char.toNat - '0'.toNat))
      else none

def unsigned : List Char → List Char
  | '+' :: rest => rest
  | digits => digits

/-- The number that a text writes, if it writes one below the limit. -/
def number? (text : List Char) : Option Nat :=
  let digits := unsigned text
  if digits.isEmpty then none
  else (digitsValue? digits 0).filter (· < wordLimit)

end PropSat.Text
