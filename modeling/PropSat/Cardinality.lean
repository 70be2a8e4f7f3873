import PropSat.Formula.Basic

/-!
# Counting constraints

How many formulas of a list are true, as conjunctions of small disjunctions.
`exactlyOne` says more than a bare disjunction, and helps unit propagation:
once one member is true, a clause of two literals makes each other one false.
-/

namespace PropSat.Cardinality

/-- Every pair of an earlier and a later member of a list, ordered by the
earlier one and then by the later one. -/
def pairs {α : Type} : List α → List (α × α)
  | [] => []
  | first :: rest => rest.map (first, ·) ++ pairs rest

def atLeastOne (members : List Formula) : Formula :=
  .disj members

def atMostOne (members : List Formula) : Formula :=
  .conj ((pairs members).map fun pair => .neg (.conj [pair.1, pair.2]))

def exactlyOne (members : List Formula) : Formula :=
  .conj [atMostOne members, atLeastOne members]

end PropSat.Cardinality
