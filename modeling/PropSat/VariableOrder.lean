import PropSat.Names
import PropSat.Random

/-!
# Branching orders

A search branches on the first unassigned variable of its list, so arranging
the list is all there is to choosing an order.  A shuffled order depends on
the names and the seed only: the names are sorted before they are shuffled.
-/

namespace PropSat

inductive VariableOrder where
  | given
  | sorted
  /-- A permutation of the sorted list that the seed determines. -/
  | shuffled (seed : UInt64)
  deriving DecidableEq

namespace VariableOrder

/-- The names in this order, repeats included, where a shuffle draws from
generators of the given kind. -/
def arrangeWith (σ : Type) [Generator σ] (order : VariableOrder)
    (names : List String) : List String :=
  match order with
  | .given => names
  | .sorted => Names.sorted names
  | .shuffled seed =>
      (Generator.shuffle (Names.sorted names)
        (Generator.ofSeed seed : σ)).1

def arrange (order : VariableOrder) (names : List String) : List String :=
  order.arrangeWith RandomSource names

end VariableOrder

/-- An order still without the seed for shuffling. -/
inductive OrderKind where
  | given
  | sorted
  | shuffled
  deriving DecidableEq, Inhabited

namespace OrderKind

def all : List OrderKind := [.given, .sorted, .shuffled]

def name : OrderKind → String
  | .given => "given"
  | .sorted => "sorted"
  | .shuffled => "shuffled"

def withSeed (kind : OrderKind) (seed : UInt64) : VariableOrder :=
  match kind with
  | .given => .given
  | .sorted => .sorted
  | .shuffled => .shuffled seed

end OrderKind

end PropSat
