import Std.Data.ExtTreeMap

/-!
# Valuations

A valuation assigns truth values to some variable names.  It is a finite map
from names to `Bool`, kept in the order of the names, so that two valuations
are equal exactly when they give every name the same value, and listing one
needs no further sorting.  Names compare by Unicode code point, which is also
the order of their UTF-8 bytes.
-/

namespace PropSat

/-- A partial assignment of truth values to variable names. -/
structure Valuation where
  entries : Std.ExtTreeMap String Bool
  deriving DecidableEq

namespace Valuation

def empty : Valuation := ⟨∅⟩

instance : EmptyCollection Valuation := ⟨empty⟩

instance : Inhabited Valuation := ⟨empty⟩

/-- The value of `name`, or `none` if it is unassigned. -/
def get? (valuation : Valuation) (name : String) : Option Bool :=
  valuation.entries[name]?

def contains (valuation : Valuation) (name : String) : Bool :=
  valuation.entries.contains name

/-- Gives `name` the value `value`, and answers the value it had before. -/
def assign (valuation : Valuation) (name : String) (value : Bool) :
    Option Bool × Valuation :=
  (valuation.get? name, ⟨valuation.entries.insert name value⟩)

/-- Where the answer of an assignment is not used, only what is assigned
stays. -/
instance : Coe (Option Bool × Valuation) Valuation := ⟨Prod.snd⟩

/-- Makes the assignments of a list from left to right, so that the last one
for a name is the one that stays. -/
def extend (valuation : Valuation) (pairs : List (String × Bool)) : Valuation :=
  pairs.foldl (fun current pair => current.assign pair.1 pair.2) valuation

def ofList (pairs : List (String × Bool)) : Valuation :=
  empty.extend pairs

/-- The assignments, by increasing name. -/
def toList (valuation : Valuation) : List (String × Bool) :=
  valuation.entries.toList

def size (valuation : Valuation) : Nat :=
  valuation.entries.size

def isEmpty (valuation : Valuation) : Bool :=
  valuation.entries.isEmpty

def isTotalOver (valuation : Valuation) (names : List String) : Bool :=
  names.all valuation.contains

/-- Every name that `smaller` assigns has the same value in `larger`. -/
def Extends (larger smaller : Valuation) : Prop :=
  ∀ name value, smaller.get? name = some value → larger.get? name = some value

/-- Every name that `smaller` assigns has a value in `larger`, perhaps
another. -/
def Covers (larger smaller : Valuation) : Prop :=
  ∀ name, smaller.contains name = true → larger.contains name = true

/-- How many places of a list of names hold an unassigned one.  Every search
step lowers it, which is why the searches of this library end. -/
def unassigned (valuation : Valuation) (names : List String) : Nat :=
  names.countP fun name => !valuation.contains name

def renderPair (pair : String × Bool) : String :=
  pair.1 ++ "=" ++ toString pair.2

def render (valuation : Valuation) : String :=
  "\x7b" ++ ", ".intercalate (valuation.toList.map renderPair) ++ "\x7d"

instance : ToString Valuation := ⟨render⟩

@[ext]
theorem ext {left right : Valuation}
    (same : ∀ name, left.get? name = right.get? name) : left = right := by
  cases left
  cases right
  congr
  exact Std.ExtTreeMap.ext_getElem? same

@[simp]
theorem get?_empty (name : String) : empty.get? name = none := by
  simp [empty, get?]

theorem contains_eq_isSome (valuation : Valuation) (name : String) :
    valuation.contains name = (valuation.get? name).isSome := by
  simp [contains, get?]

theorem get?_assign (valuation : Valuation) (name other : String)
    (value : Bool) :
    (valuation.assign name value).2.get? other =
      if name = other then some value else valuation.get? other := by
  simp [assign, get?, Std.ExtTreeMap.getElem?_insert]

@[simp]
theorem get?_assign_self (valuation : Valuation) (name : String)
    (value : Bool) : (valuation.assign name value).2.get? name = some value := by
  simp [get?_assign]

@[simp]
theorem contains_assign_self (valuation : Valuation) (name : String)
    (value : Bool) : (valuation.assign name value).2.contains name = true := by
  simp [contains_eq_isSome]

theorem contains_assign_of_contains {valuation : Valuation} {name : String}
    (assigned : valuation.contains name = true) (other : String)
    (value : Bool) : (valuation.assign other value).2.contains name = true := by
  simp only [contains_eq_isSome, get?_assign] at *
  split
  · rfl
  · exact assigned

theorem Covers.refl (valuation : Valuation) : valuation.Covers valuation :=
  fun _ assigned => assigned

theorem Covers.trans {large middle small : Valuation}
    (first : large.Covers middle) (second : middle.Covers small) :
    large.Covers small :=
  fun name assigned => first name (second name assigned)

theorem covers_assign (valuation : Valuation) (name : String) (value : Bool) :
    (valuation.assign name value).2.Covers valuation :=
  fun _ assigned => contains_assign_of_contains assigned name value

theorem Covers.unassigned_le {larger smaller : Valuation}
    (covers : larger.Covers smaller) (names : List String) :
    larger.unassigned names ≤ smaller.unassigned names := by
  refine List.countP_mono_left fun name _ isOpen => ?_
  cases assigned : smaller.contains name with
  | false => rfl
  | true => simp [covers name assigned] at isOpen

theorem unassigned_assign_lt {valuation : Valuation} {name : String}
    {names : List String} (member : name ∈ names)
    (isOpen : valuation.contains name = false) (value : Bool) :
    (valuation.assign name value).2.unassigned names <
      valuation.unassigned names := by
  rcases List.append_of_mem member with ⟨before, after, rfl⟩
  have left := (covers_assign valuation name value).unassigned_le before
  have right := (covers_assign valuation name value).unassigned_le after
  simp only [unassigned, List.countP_append, List.countP_cons,
    contains_assign_self, isOpen] at left right ⊢
  simp only [Bool.not_true, Bool.not_false, if_true, Bool.false_eq_true,
    if_false]
  omega

end Valuation

end PropSat
