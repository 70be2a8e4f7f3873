import PropSat.Valuation

/-!
# Literals

A literal is a variable or its negation.  Its polarity is the value of the
variable under which the literal is true.
-/

namespace PropSat

structure Literal where
  name : String
  /-- The value is `true` for the variable itself, `false` for its negation. -/
  polarity : Bool
  deriving DecidableEq, Inhabited

namespace Literal

def positive (name : String) : Literal := ⟨name, true⟩

def negative (name : String) : Literal := ⟨name, false⟩

def negated (literal : Literal) : Literal :=
  ⟨literal.name, !literal.polarity⟩

/-- The value of a literal, or `none` if its variable is unassigned. -/
def value? (literal : Literal) (valuation : Valuation) : Option Bool :=
  match valuation.get? literal.name with
  | some value => some (value == literal.polarity)
  | none => none

def render (literal : Literal) : String :=
  if literal.polarity then literal.name else "!" ++ literal.name

instance : ToString Literal := ⟨render⟩

/-- Literals are ordered by name; of the two over one name, the negative one
comes first. -/
instance : Ord Literal where
  compare left right :=
    (compare left.name right.name).then (compare left.polarity right.polarity)

@[simp]
theorem value?_negated (literal : Literal) (valuation : Valuation) :
    literal.negated.value? valuation =
      (literal.value? valuation).map (!·) := by
  cases value : valuation.get? literal.name with
  | none => simp [value?, negated, value]
  | some assigned =>
      cases assigned <;> cases polarity : literal.polarity <;>
        simp [value?, negated, value, polarity]

theorem value?_eq_none_iff (literal : Literal) (valuation : Valuation) :
    literal.value? valuation = none ↔
      valuation.contains literal.name = false := by
  cases value : valuation.get? literal.name <;>
    simp [value?, Valuation.contains_eq_isSome, value]

end Literal

/-- The valuation changed as little as needed to make `literal` true. -/
def Valuation.satisfy (valuation : Valuation) (literal : Literal) : Valuation :=
  valuation.assign literal.name literal.polarity

@[simp]
theorem Literal.value?_satisfy (literal : Literal) (valuation : Valuation) :
    literal.value? (valuation.satisfy literal) = some true := by
  simp [value?, Valuation.satisfy]

end PropSat
