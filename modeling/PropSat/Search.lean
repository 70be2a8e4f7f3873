import PropSat.Propagation

/-!
# Backtracking search

The search decides whether a valuation can be extended to one that satisfies
every clause.  At each node it propagates, picks the first variable of a given
list that is still unassigned, and tries it as `true` and then as `false`.
Nothing is ever undone: a branch that fails is dropped with its valuation.

`searchWithin` runs with any propagator, down to a bound on the depth, and
says so when the bound is too small.  A propagator that never takes back an
assignment needs no deeper bound than the number of variables; `solveFrom` is
the search for those, and always answers.
-/

namespace PropSat

inductive Outcome where
  | satisfiable (model : Valuation)
  | unsatisfiable
  deriving DecidableEq, Inhabited

namespace Outcome

def isSat : Outcome → Bool
  | .satisfiable _ => true
  | .unsatisfiable => false

def model? : Outcome → Option Valuation
  | .satisfiable model => some model
  | .unsatisfiable => none

end Outcome

structure Statistics where
  /-- Values tried at branching points, or rows of a truth table looked at. -/
  decisions : Nat
  propagations : Nat
  conflicts : Nat
  maxDepth : Nat
  deriving DecidableEq, Inhabited

/-- What a search decides: clauses, and the variables to branch on in order of
preference.  The variables may repeat and need not be those of the clauses. -/
structure Problem where
  cnf : Cnf
  names : List String

namespace Search

def firstValue : Bool := true

/-- What a search carries from node to node, and from one search to the next.
The valuation is not part of it. -/
structure State (σ : Type) where
  decisions : Nat
  conflicts : Nat
  maxDepth : Nat
  propagator : σ
  /-- What happened in the current search, oldest first. -/
  events : Array Event

namespace State

variable {σ : Type}

def start (propagator : σ) : State σ := ⟨0, 0, 0, propagator, #[]⟩

def enter (state : State σ) (depth : Nat) : State σ :=
  { state with maxDepth := max state.maxDepth depth }

def inferred (state : State σ) (inference : Inference σ) : State σ :=
  { state with
    propagator := inference.state
    events := state.events ++ inference.events }

def fail (state : State σ) (depth : Nat) : State σ :=
  { state with
    conflicts := state.conflicts + 1
    events := state.events.push (.fails depth) }

def decide (state : State σ) (depth : Nat) (name : String) (value : Bool) :
    State σ :=
  { state with
    decisions := state.decisions + 1
    events := state.events.push (.tries depth name value) }

def finish (state : State σ) (outcome : Outcome) : State σ :=
  { state with
    events := state.events.push
      (.ends outcome.isSat state.decisions state.conflicts) }

def statistics (state : State σ) (propagator : Propagator σ) : Statistics where
  decisions := state.decisions
  propagations := propagator.propagations state.propagator
  conflicts := state.conflicts
  maxDepth := state.maxDepth

end State

variable {σ : Type}

def nextVariable (names : List String) (valuation : Valuation) :
    Option String :=
  names.find? fun name => !valuation.contains name

/-- Searches below a node.  The first argument bounds how many levels may be
entered; `none` means that the bound was reached, never that there is no
model. -/
def searchWithin (propagator : Propagator σ) (problem : Problem) :
    Nat → Nat → Valuation → State σ → Option (Outcome × State σ)
  | 0, _, _, _ => none
  | bound + 1, depth, valuation, state =>
      let entered := state.enter depth
      let inference :=
        propagator.propagate problem.cnf valuation entered.propagator
      let state := entered.inferred inference
      match inference.result with
      | .conflict => some (.unsatisfiable, state.fail depth)
      | .consistent extended =>
          match nextVariable problem.names extended with
          | none => some (.satisfiable extended, state)
          | some name =>
              let tryValue (value : Bool) (state : State σ) :=
                searchWithin propagator problem bound (depth + 1)
                  (extended.assign name value)
                  (state.decide depth name value)
              match tryValue firstValue state with
              | none => none
              | some (.satisfiable model, state) =>
                  some (.satisfiable model, state)
              | some (.unsatisfiable, state) => tryValue (!firstValue) state

/-- Searches for an extension of a valuation, down to a bound on the depth.
The state it starts from supplies the counts, not the events. -/
def solveWithin (propagator : Propagator σ) (bound : Nat) (problem : Problem)
    (valuation : Valuation) (state : State σ) : Option (Outcome × State σ) :=
  (searchWithin propagator problem bound 0 valuation
    { state with events := #[] }).map
      fun (outcome, state) => (outcome, state.finish outcome)

theorem nextVariable_eq_some {names : List String} {valuation : Valuation}
    {name : String} (found : nextVariable names valuation = some name) :
    name ∈ names ∧ valuation.contains name = false := by
  refine ⟨List.mem_of_find?_eq_some found, ?_⟩
  simpa using List.find?_some found

/-- Where branching and propagation keep a property of valuations, and
propagation takes back no assignment of one that has it, every level closes a
variable.  A bound above the number of open places is then never reached. -/
theorem searchWithin_isSome_of_invariant {propagator : Propagator σ}
    {problem : Problem} (Holds : Valuation → Prop)
    (propagates : ∀ node (state : σ) extended, Holds node →
      (propagator.propagate problem.cnf node state).result =
        .consistent extended → Holds extended ∧ extended.Covers node)
    (branches : ∀ node name value, Holds node →
      node.contains name = false → Holds (node.assign name value))
    {bound : Nat} {valuation : Valuation} (start : Holds valuation)
    (enough : valuation.unassigned problem.names < bound) (depth : Nat)
    (state : State σ) :
    (searchWithin propagator problem bound depth valuation state).isSome := by
  induction bound generalizing valuation depth state with
  | zero => omega
  | succ bound induction =>
      unfold searchWithin
      dsimp only
      split
      · rfl
      · next extended consistent =>
          obtain ⟨holds, covers⟩ := propagates _ _ _ start consistent
          split
          · rfl
          · next name found =>
              obtain ⟨member, isOpen⟩ := nextVariable_eq_some found
              have below (value : Bool) :
                  (extended.assign name value).2.unassigned problem.names <
                    bound := by
                have closed :=
                  Valuation.unassigned_assign_lt member isOpen value
                have kept := covers.unassigned_le problem.names
                omega
              have branch (value : Bool) :=
                induction (branches _ _ value holds isOpen) (below value)
                  (depth + 1)
              rcases Option.isSome_iff_exists.mp (branch firstValue _) with
                ⟨⟨outcome, later⟩, first⟩
              rw [first]
              cases outcome with
              | satisfiable model => rfl
              | unsatisfiable => exact branch (!firstValue) _

theorem searchWithin_isSome {propagator : Propagator σ}
    (monotone : propagator.IsMonotone) (problem : Problem) {bound : Nat}
    {valuation : Valuation}
    (enough : valuation.unassigned problem.names < bound) (depth : Nat)
    (state : State σ) :
    (searchWithin propagator problem bound depth valuation state).isSome := by
  apply searchWithin_isSome_of_invariant fun _ => True
  · intro node state extended _ consistent
    exact ⟨trivial, monotone _ _ _ _ consistent⟩
  · intro _ _ _ _ _
    trivial
  · trivial
  · exact enough

/-- Searches for an extension of a valuation that satisfies every clause and
assigns every variable of the problem, with a propagator that never takes
back an assignment.  The state is what earlier searches left behind. -/
def solveFrom (propagator : Propagator σ) (monotone : propagator.IsMonotone)
    (problem : Problem) (valuation : Valuation) (state : State σ) :
    Outcome × State σ :=
  (solveWithin propagator (problem.names.length + 1) problem valuation
    state).get (by
      have enough : valuation.unassigned problem.names <
          problem.names.length + 1 :=
        Nat.lt_succ_of_le List.countP_le_length
      rw [solveWithin, Option.isSome_map]
      exact searchWithin_isSome monotone problem enough 0 _)

end Search

def Problem.solveFrom (problem : Problem) (valuation : Valuation)
    (state : Search.State Nat) : Outcome × Search.State Nat :=
  Search.solveFrom unitPropagation unitPropagation_isMonotone problem valuation
    state

/-- Decides whether `valuation` can be extended so that it satisfies `cnf` and
assigns every one of `names`, branching on them in order. -/
def dpll (valuation : Valuation) (cnf : Cnf) (names : List String) :
    Outcome :=
  (Problem.solveFrom ⟨cnf, names⟩ valuation (.start 0)).1

end PropSat
