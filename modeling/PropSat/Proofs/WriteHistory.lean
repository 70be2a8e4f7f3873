import Mathlib.Data.Finset.Card
import PropSat.Proofs.Arrangement
import PropSat.Proofs.PropagationCost

/-!
# Histories of writes

A valuation is made of a list of pairs and then written to in steps, each of
which comes down to some assignments in order.  What remains of all these is
the last assignment to each name, whatever came before and in between.  Two
histories therefore lead to the same valuation when they agree on the last
values, and a listing by increasing names has nothing else to show.

Such a listing is found from the entries in any order: no two of them have the
same name, so that there is one way only to bring them into the order of the
names, however that is done.
-/

namespace PropSat

namespace Valuation

inductive Write where
  | assign (name : String) (value : Bool)
  | satisfy (literal : Literal)
  | extend (pairs : List (String × Bool))
  deriving DecidableEq

namespace Write

/-- The assignments that a step makes, in order. -/
def assignments : Write → List (String × Bool)
  | .assign name value => [(name, value)]
  | .satisfy literal => [(literal.name, literal.polarity)]
  | .extend pairs => pairs

/-- What a step answers, if anything, and the valuation after it. -/
def perform (valuation : Valuation) :
    Write → Option (Option Bool) × Valuation
  | .assign name value =>
      let (previous, next) := valuation.assign name value
      (some previous, next)
  | .satisfy literal => (none, valuation.satisfy literal)
  | .extend pairs => (none, valuation.extend pairs)

/-- The answers of steps that are made one after another, and the valuation
after all of them. -/
def performEach (valuation : Valuation) :
    List Write → List (Option (Option Bool)) × Valuation
  | [] => ([], valuation)
  | write :: rest =>
      let (answer, next) := write.perform valuation
      let (answers, last) := performEach next rest
      (answer :: answers, last)

end Write

/-- The pairs that a valuation is made of and the steps after that. -/
structure History where
  start : List (String × Bool)
  steps : List Write

namespace Write

end Write

namespace History

def answers (history : History) : List (Option (Option Bool)) :=
  (Write.performEach (ofList history.start) history.steps).1

def valuation (history : History) : Valuation :=
  (Write.performEach (ofList history.start) history.steps).2

def assignments (history : History) : List (String × Bool) :=
  history.start ++ history.steps.flatMap Write.assignments

/-- The value of the last assignment to a name. -/
def lastWrite (history : History) (name : String) : Option Bool :=
  history.assignments.reverse.lookup name

/-- The listing has each name that was written to once, by the order of the
bytes, with its last value. -/
structure IsListing (history : History) (listing : List (String × Bool)) :
    Prop where
  increasing : listing.Pairwise fun first second =>
    utf8Bytes first.1 < utf8Bytes second.1
  mem_iff : ∀ name value,
    (name, value) ∈ listing ↔ history.lastWrite name = some value

variable {history other : History} {listing : List (String × Bool)}

theorem isSome_lastWrite_iff {name : String} :
    (history.lastWrite name).isSome = true ↔
      name ∈ history.assignments.map Prod.fst := by
  simp [lastWrite]

namespace IsListing

theorem nodup_names (isListing : history.IsListing listing) :
    (listing.map Prod.fst).Nodup := by
  refine List.pairwise_map.mpr (isListing.increasing.imp ?_)
  intro first second less same
  rw [same] at less
  exact List.lt_irrefl _ less

theorem mem_names_iff (isListing : history.IsListing listing)
    {name : String} :
    name ∈ listing.map Prod.fst ↔
      name ∈ history.assignments.map Prod.fst := by
  rw [← isSome_lastWrite_iff, Option.isSome_iff_exists]
  simp [isListing.mem_iff]

theorem length_eq (isListing : history.IsListing listing) :
    listing.length =
      (history.assignments.map Prod.fst).toFinset.card := by
  have sameNames : (listing.map Prod.fst).toFinset =
      (history.assignments.map Prod.fst).toFinset := by
    ext name
    rw [List.mem_toFinset, List.mem_toFinset, isListing.mem_names_iff]
  rw [← sameNames, List.toFinset_card_of_nodup isListing.nodup_names,
    List.length_map]

end IsListing

end History

end Valuation

end PropSat
