import Std.Data.ExtTreeSet

/-!
# Names of variables

Sets and lists of variable names.  Names are ordered by code point, which is
the order of their UTF-8 bytes.
-/

namespace PropSat

/-- A set of names; two of them with the same members are equal. -/
abbrev NameSet := Std.ExtTreeSet String

theorem NameSet.mem_toList_ofList {names : List String} {name : String} :
    name ∈ (Std.ExtTreeSet.ofList names : NameSet).toList ↔ name ∈ names := by
  rw [Std.ExtTreeSet.mem_toList, Std.ExtTreeSet.mem_ofList,
    List.contains_iff_mem]

namespace Names

/-- Puts the names of a list that are not in `seen` before the names already
collected, the last one first and each only once. -/
def collectNew : List String → NameSet → List String → List String
  | [], _, collected => collected
  | name :: rest, seen, collected =>
      if seen.contains name then collectNew rest seen collected
      else collectNew rest (seen.insert name) (name :: collected)

def distinct (names : List String) : List String :=
  (collectNew names ∅ []).reverse

def sorted (names : List String) : List String :=
  names.mergeSort fun first second => decide (first ≤ second)

def numbered (stem : String) (count : Nat) : List String :=
  (List.range count).map fun index => stem ++ "_" ++ toString index

end Names

end PropSat
