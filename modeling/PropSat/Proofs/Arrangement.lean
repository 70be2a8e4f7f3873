import PropSat.Proofs.ByteOrder
import PropSat.VariableOrder

/-!
# Arranging names loses none

Every order is a permutation of the names it is given: sorting permutes them,
and shuffling only ever exchanges two positions.  Which positions are exchanged
is drawn from the seed alone, so that a sorted or a shuffled order does not
depend on the order in which the names are given.

This is so with every generator whose draws are below their limits, and
therefore with the one in use.
-/

namespace PropSat

namespace Generator

variable {α σ : Type} [Generator σ]

/-- The generator after the draws for the positions from one up to a last
one. -/
def stateAfter (source : σ) : Nat → σ
  | 0 => source
  | last + 1 => (below (Nat.succ_pos (last + 1)) (stateAfter source last)).2

/-- The position that is drawn for a position when its turn comes. -/
def pick (source : σ) : (position : Nat) → Fin (position + 1)
  | 0 => 0
  | last + 1 => (below (Nat.succ_pos (last + 1)) (stateAfter source last)).1

theorem picked_lt {position size : Nat} (picked : Fin (position + 1))
    (inside : position < size) : picked.val < size :=
  (Nat.le_of_lt_succ picked.isLt).trans_lt inside

/-- The positions from one up to a last one are exchanged in turn, each with
the one picked for it. -/
inductive Exchanges (picks : (position : Nat) → Fin (position + 1))
    (start : Array α) : Nat → Array α → Prop where
  | none : Exchanges picks start 0 start
  | next {last : Nat} {values : Array α} :
      Exchanges picks start last values →
      (inside : last + 1 < values.size) →
      Exchanges picks start (last + 1)
        (values.swap (last + 1) (picks (last + 1)) inside
          (picked_lt _ inside))

theorem Exchanges.perm {picks : (position : Nat) → Fin (position + 1)}
    {start values : Array α} {last : Nat}
    (exchanges : Exchanges picks start last values) : values.Perm start := by
  induction exchanges with
  | none => exact .refl start
  | next _ _ induction => exact (Array.swap_perm _ _).trans induction

/-- A step never leaves out its exchange, since both positions lie inside. -/
theorem shuffleStep_eq {values : Array α} {last : Nat} (source : σ)
    (inside : last + 1 < values.size) :
    shuffleStep (values, stateAfter source last) (last + 1) =
      (values.swap (last + 1) (pick source (last + 1)) inside
        (picked_lt _ inside), stateAfter source (last + 1)) := by
  have pickInside := picked_lt (pick source (last + 1)) inside
  change (values.swapIfInBounds (last + 1) (pick source (last + 1)),
    stateAfter source (last + 1)) = _
  rw [Array.swapIfInBounds_def, dif_pos inside, dif_pos pickInside]

theorem foldl_shuffleStep {start : Array α} {last : Nat} (source : σ)
    (inside : last < start.size ∨ last = 0) :
    ∃ values, Exchanges (pick source) start last values ∧
      (List.range' 1 last).foldl shuffleStep (start, source) =
        (values, stateAfter source last) := by
  induction last with
  | zero => exact ⟨start, .none, rfl⟩
  | succ last induction =>
      obtain ⟨values, exchanges, exchanged⟩ := induction (by omega)
      have within : last + 1 < values.size := by
        rw [exchanges.perm.size_eq]
        omega
      refine ⟨_, exchanges.next within, ?_⟩
      rw [List.range'_1_concat, List.foldl_append, exchanged,
        Nat.add_comm 1 last]
      exact shuffleStep_eq source within

/-- A shuffle exchanges every position but the first. -/
theorem shuffle_exchanges (values : List α) (source : σ) :
    Exchanges (pick source) values.toArray (values.length - 1)
      (shuffle values source).1.toArray := by
  have inside :
      values.length - 1 < values.toArray.size ∨ values.length - 1 = 0 := by
    rw [List.size_toArray]
    omega
  obtain ⟨shuffled, exchanges, exchanged⟩ := foldl_shuffleStep source inside
  have isShuffled : (shuffle values source).1 = shuffled.toList := by
    rw [shuffle, exchanged]
  rw [isShuffled, Array.toArray_toList]
  exact exchanges

theorem shuffle_perm (values : List α) (source : σ) :
    (shuffle values source).1.Perm values := by
  simpa using (shuffle_exchanges values source).perm.toList

end Generator

namespace Names

variable {names others : List String}

theorem sorted_perm (names : List String) : (sorted names).Perm names :=
  List.mergeSort_perm names _

theorem pairwise_sorted (names : List String) :
    (sorted names).Pairwise (· ≤ ·) := by
  have trans : ∀ first second third : String, decide (first ≤ second) →
      decide (second ≤ third) → decide (first ≤ third) := by
    simpa using fun _ _ _ => String.le_trans
  have total : ∀ first second : String,
      decide (first ≤ second) || decide (second ≤ first) := by
    simpa using String.le_total
  exact (List.pairwise_mergeSort trans total names).imp of_decide_eq_true

/-- Sorting forgets the order in which the names are given. -/
theorem sorted_eq_of_perm (same : names.Perm others) :
    sorted names = sorted others := by
  have samePerm : (sorted names).Perm (sorted others) :=
    (sorted_perm names).trans (same.trans (sorted_perm others).symm)
  exact samePerm.eq_of_pairwise (fun _ _ _ _ => String.le_antisymm)
    (pairwise_sorted names) (pairwise_sorted others)

end Names

theorem utf8Bytes_le_iff {first second : String} :
    utf8Bytes first ≤ utf8Bytes second ↔ first ≤ second := by
  rw [← List.not_lt, ← String.not_lt, utf8Bytes_lt_iff]

namespace VariableOrder

variable {order : VariableOrder} {names others : List String} {name : String}

theorem arrangeWith_perm (σ : Type) [Generator σ] (order : VariableOrder)
    (names : List String) : (order.arrangeWith σ names).Perm names := by
  cases order with
  | given => exact .refl names
  | sorted => exact Names.sorted_perm names
  | shuffled seed =>
      exact (Generator.shuffle_perm _ _).trans (Names.sorted_perm names)

theorem arrange_perm (order : VariableOrder) (names : List String) :
    (order.arrange names).Perm names :=
  order.arrangeWith_perm RandomSource names

theorem mem_arrange_iff : name ∈ order.arrange names ↔ name ∈ names :=
  (order.arrange_perm names).mem_iff

/-- An order that begins with sorting depends on the names alone. -/
theorem arrangeWith_eq_iff {σ : Type} [Generator σ]
    (notGiven : order ≠ .given) :
    order.arrangeWith σ names = order.arrangeWith σ others ↔
      names.Perm others := by
  constructor
  · intro same
    have permuted := order.arrangeWith_perm σ names
    rw [same] at permuted
    exact permuted.symm.trans (order.arrangeWith_perm σ others)
  · intro same
    have sameSorted := Names.sorted_eq_of_perm same
    cases order with
    | given => exact absurd rfl notGiven
    | sorted => exact sameSorted
    | shuffled seed => rw [arrangeWith, arrangeWith, sameSorted]

end VariableOrder

/-- How names are arranged in the orders of a seed.  In the shuffled one the
positions of the sorted names are exchanged in turn, each with one up to it
that is picked from the seed alone. -/
structure ArrangesNames (σ : Type) [Generator σ] (seed : UInt64)
    (arrange : OrderKind → List String → List String) : Prop where
  perm : ∀ kind names, (arrange kind names).Perm names
  given : ∀ names, arrange .given names = names
  sorted : ∀ names, (arrange .sorted names).Pairwise fun first second =>
    utf8Bytes first ≤ utf8Bytes second
  shuffled : ∀ names, Generator.Exchanges
    (Generator.pick (Generator.ofSeed seed : σ))
    (arrange .sorted names).toArray (names.length - 1)
    (arrange .shuffled names).toArray
  sorted_eq_iff : ∀ names others,
    arrange .sorted names = arrange .sorted others ↔ names.Perm others
  shuffled_eq_iff : ∀ names others,
    arrange .shuffled names = arrange .shuffled others ↔ names.Perm others

theorem arrangesNames_arrangeWith (σ : Type) [Generator σ] (seed : UInt64) :
    ArrangesNames σ seed fun kind =>
      (kind.withSeed seed).arrangeWith σ where
  perm kind names := (kind.withSeed seed).arrangeWith_perm σ names
  given _ := rfl
  sorted names := (Names.pairwise_sorted names).imp utf8Bytes_le_iff.mpr
  shuffled names := by
    have exchanges := Generator.shuffle_exchanges (Names.sorted names)
      (Generator.ofSeed seed : σ)
    rw [(Names.sorted_perm names).length_eq] at exchanges
    exact exchanges
  sorted_eq_iff _ _ := VariableOrder.arrangeWith_eq_iff nofun
  shuffled_eq_iff _ _ := VariableOrder.arrangeWith_eq_iff nofun

/-- Every kind of order is a permutation of the names, repeats included.  The
given order changes nothing, and the sorted one goes by the bytes.  Sorted and
shuffled orders are equal exactly for the same names in any order.  This holds
with any generator whose draws are below their limits, and so with the one in
use. -/
theorem arrangements_keep_all_names (seed : UInt64) :
    (∀ (σ : Type) [Generator σ], ArrangesNames σ seed fun kind =>
      (kind.withSeed seed).arrangeWith σ) ∧
    ArrangesNames RandomSource seed fun kind =>
      (kind.withSeed seed).arrange := by
  constructor
  · intro σ _
    exact arrangesNames_arrangeWith σ seed
  · exact arrangesNames_arrangeWith RandomSource seed

end PropSat
