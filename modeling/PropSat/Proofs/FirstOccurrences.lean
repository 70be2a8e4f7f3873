import Mathlib.Data.List.Basic
import PropSat.Names

/-!
# First occurrences

A list has the first occurrences among names when it has the same names and
keeps the order in which each comes up for the first time.  There is only one
such list, and collecting the names that were not seen before builds it.
-/

namespace PropSat

theorem NameSet.mem_insert_iff {names : NameSet} {name other : String} :
    other ∈ names.insert name ↔ other ∈ names ∨ other = name := by
  rw [Std.ExtTreeSet.mem_insert, Std.LawfulEqCmp.compare_eq_iff_eq, or_comm,
    eq_comm]

namespace Names

/-- The names found are those that occur, each once, by their first
occurrences. -/
structure FirstOccurrences (names found : List String) : Prop where
  mem_iff : ∀ name, name ∈ found ↔ name ∈ names
  ordered : found.Pairwise fun first second =>
    names.idxOf first < names.idxOf second

namespace FirstOccurrences

variable {names found others : List String} {name : String}

theorem nodup (first : FirstOccurrences names found) : found.Nodup := by
  refine first.ordered.imp ?_
  rintro first _ before rfl
  exact Nat.lt_irrefl _ before

theorem nil : FirstOccurrences [] [] := ⟨fun _ => Iff.rfl, .nil⟩

/-- What comes later does not change where a name first occurs. -/
theorem ordered_append (first : FirstOccurrences names found)
    (later : List String) : found.Pairwise fun first second =>
      (names ++ later).idxOf first < (names ++ later).idxOf second := by
  refine first.ordered.imp_of_mem ?_
  intro name other member otherMember before
  rwa [List.idxOf_append_of_mem ((first.mem_iff name).mp member),
    List.idxOf_append_of_mem ((first.mem_iff other).mp otherMember)]

theorem append_known (first : FirstOccurrences names found)
    (known : name ∈ names) : FirstOccurrences (names ++ [name]) found where
  mem_iff other := by
    rw [first.mem_iff, List.mem_append, List.mem_singleton]
    constructor
    · exact .inl
    · rintro (member | rfl)
      · exact member
      · exact known
  ordered := first.ordered_append [name]

theorem append_new (first : FirstOccurrences names found)
    (new : name ∉ names) :
    FirstOccurrences (names ++ [name]) (found ++ [name]) where
  mem_iff other := by
    rw [List.mem_append, List.mem_append, first.mem_iff]
  ordered := by
    refine List.pairwise_append.mpr
      ⟨first.ordered_append [name], List.pairwise_singleton _ _, ?_⟩
    intro other isFound last isLast
    rw [List.mem_singleton.mp isLast]
    have occurs := (first.mem_iff other).mp isFound
    rw [List.idxOf_append_of_mem occurs, List.idxOf_append_of_notMem new]
    have inside := List.idxOf_lt_length_of_mem occurs
    omega

theorem unique (first : FirstOccurrences names found)
    (second : FirstOccurrences names others) : found = others := by
  have permuted : found.Perm others := by
    rw [List.perm_ext_iff_of_nodup first.nodup second.nodup]
    intro name
    rw [first.mem_iff, second.mem_iff]
  refine permuted.eq_of_pairwise ?_ first.ordered second.ordered
  intro _ _ _ _ before after
  omega

end FirstOccurrences

/-- Names that are scanned after others join the first occurrences among these,
as long as the set has seen just these. -/
theorem collectNew_firstOccurrences {scanned names : List String}
    {seen : NameSet} {collected : List String}
    (aligned : ∀ name, name ∈ seen ↔ name ∈ scanned)
    (first : FirstOccurrences scanned collected.reverse) :
    FirstOccurrences (scanned ++ names)
      (collectNew names seen collected).reverse := by
  induction names generalizing scanned seen collected with
  | nil => simpa [collectNew] using first
  | cons name rest induction =>
      rw [List.append_cons, collectNew]
      split
      · next known =>
          have isScanned := (aligned name).mp known
          refine induction ?_ (first.append_known isScanned)
          intro other
          rw [aligned other, List.mem_append, List.mem_singleton]
          constructor
          · exact .inl
          · rintro (member | rfl)
            · exact member
            · exact isScanned
      · next unknown =>
          have isNew : name ∉ scanned := fun member =>
            unknown ((aligned name).mpr member)
          refine induction ?_ ?_
          · intro other
            rw [NameSet.mem_insert_iff, aligned other, List.mem_append,
              List.mem_singleton]
          · rw [List.reverse_cons]
            exact first.append_new isNew

theorem distinct_firstOccurrences (names : List String) :
    FirstOccurrences names (distinct names) := by
  have none (name : String) :
      name ∈ (∅ : NameSet) ↔ name ∈ ([] : List String) := by
    simp
  exact collectNew_firstOccurrences none .nil

end Names

end PropSat
