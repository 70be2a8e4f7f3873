import Mathlib.Algebra.Group.Nat.Defs
import PropSat.Observation
import PropSat.Proofs.LeastClosure
import PropSat.Proofs.RepeatedSearch

/-!
# What the counts of a search say about its tree

A node at which propagation meets a conflict is a leaf, and every other node
is a model or branches.  A branching node at which both values fail costs two
decisions, so that a failed search is a complete binary tree whose leaves are
its conflicts.  A search that succeeds leaves such a tree beside the path to
its model at every level where the second value was needed, and has spent a
single decision at every level where the first one sufficed.

The counts are compared before and after a search, by induction on the tree
that it explores, and its depth is bounded by the variables left open.  That
each node calls the propagator once shows in a search with a recording
propagator, which is the same search.
-/

namespace PropSat

namespace Search

/-- From a valuation, choosing these values at one branching point after
another leads to a model. -/
inductive Descends (problem : Problem) :
    Valuation → List Bool → Valuation → Prop where
  | model {valuation model : Valuation} :
      problem.cnf.propagate valuation = .consistent model →
      nextVariable problem.names model = none →
      Descends problem valuation [] model
  | branch {valuation extended model : Valuation} {name : String}
      {value : Bool} {choices : List Bool} :
      problem.cnf.propagate valuation = .consistent extended →
      nextVariable problem.names extended = some name →
      Descends problem (extended.assign name value) choices model →
      Descends problem valuation (value :: choices) model

namespace Descends

variable {problem : Problem} {valuation model : Valuation}
  {choices others : List Bool}

theorem grows (descends : Descends problem valuation choices model) :
    model.Extends valuation := by
  induction descends with
  | model found _ => exact (Cnf.propagate_eq_consistent_iff.mp found).1
  | branch found isNext _ induction =>
      have isOpen := (nextVariable_eq_some isNext).2
      have growsOn := (Cnf.propagate_eq_consistent_iff.mp found).1
      exact induction.trans ((Valuation.extends_assign isOpen _).trans growsOn)

/-- The model has the values that were chosen on the way to it, so that there
is only one way. -/
theorem unique (descends : Descends problem valuation choices model)
    (other : Descends problem valuation others model) : others = choices := by
  induction descends generalizing others with
  | model found complete =>
      cases other with
      | model => rfl
      | branch otherFound isNext _ =>
          rw [found] at otherFound
          cases otherFound
          rw [complete] at isNext
          cases isNext
  | @branch _ extended model name value _ found isNext below induction =>
      cases other with
      | model otherFound complete =>
          rw [found] at otherFound
          cases otherFound
          rw [isNext] at complete
          cases complete
      | @branch _ _ _ _ otherValue _ otherFound otherNext otherBelow =>
          rw [found] at otherFound
          cases otherFound
          rw [isNext] at otherNext
          cases otherNext
          have chosen := below.grows name value
            (Valuation.get?_assign_self _ _ _)
          have otherChosen := otherBelow.grows name otherValue
            (Valuation.get?_assign_self _ _ _)
          rw [chosen] at otherChosen
          cases otherChosen
          rw [induction otherBelow]

end Descends

/-- Every level closes a variable, and propagation opens none. -/
theorem unassigned_branch_lt {σ : Type} {propagator : Propagator σ}
    {problem : Problem} {valuation extended : Valuation} {state : σ}
    {names : List String} {name : String} (monotone : propagator.IsMonotone)
    (within : ∀ name ∈ problem.names, name ∈ names)
    (consistent : (propagator.propagate problem.cnf valuation state).result =
      .consistent extended)
    (isNext : nextVariable problem.names extended = some name)
    (value : Bool) :
    (extended.assign name value).2.unassigned names <
      valuation.unassigned names := by
  obtain ⟨member, isOpen⟩ := nextVariable_eq_some isNext
  have covers := monotone _ _ _ _ consistent
  exact Nat.lt_of_lt_of_le
    (Valuation.unassigned_assign_lt (within name member) isOpen value)
    (covers.unassigned_le names)

/-- The same state of a search with a recording propagator, with a list of
the calls so far. -/
def State.recorded {σ : Type} (state : State σ) (calls : Array Node) :
    State (σ × Array Node) where
  decisions := state.decisions
  conflicts := state.conflicts
  maxDepth := state.maxDepth
  propagator := (state.propagator, calls)
  events := state.events

namespace Explores

variable {σ : Type} {propagator : Propagator σ} {problem : Problem}
  {depth : Nat} {valuation : Valuation} {state later : State σ}
  {outcome : Outcome}

theorem maxDepth_le
    (explored : Explores propagator problem depth valuation state outcome
      later) (monotone : propagator.IsMonotone) {names : List String}
    (within : ∀ name ∈ problem.names, name ∈ names) :
    later.maxDepth ≤
      max state.maxDepth (depth + valuation.unassigned names) := by
  induction explored with
  | @conflict depth valuation state _ =>
      change max state.maxDepth depth ≤ _
      omega
  | @model depth valuation _ state _ _ =>
      change max state.maxDepth depth ≤ _
      omega
  | @first depth _ extended _ state later name consistent isNext _
      induction =>
      have fewer := unassigned_branch_lt monotone within consistent isNext
        firstValue
      have below : later.maxDepth ≤ max (max state.maxDepth depth)
          (depth + 1 +
            (extended.assign name firstValue).2.unassigned names) :=
        induction
      omega
  | @second depth _ extended _ state failed later name consistent isNext _ _
      firstInduction secondInduction =>
      have fewer := unassigned_branch_lt monotone within consistent isNext
      have firstFewer := fewer firstValue
      have secondFewer := fewer !firstValue
      have firstBelow : failed.maxDepth ≤ max (max state.maxDepth depth)
          (depth + 1 +
            (extended.assign name firstValue).2.unassigned names) :=
        firstInduction
      have secondBelow : later.maxDepth ≤ max failed.maxDepth
          (depth + 1 +
            (extended.assign name !firstValue).2.unassigned names) :=
        secondInduction
      omega

/-- A binary tree of this depth has at most so many nodes besides its root. -/
theorem decisions_le
    (explored : Explores propagator problem depth valuation state outcome
      later) (monotone : propagator.IsMonotone) {names : List String}
    (within : ∀ name ∈ problem.names, name ∈ names) :
    later.decisions + 2 ≤
      state.decisions + 2 ^ (valuation.unassigned names + 1) := by
  induction explored with
  | @conflict _ valuation state _ =>
      have positive := Nat.two_pow_pos (valuation.unassigned names)
      change state.decisions + 2 ≤ _
      omega
  | @model _ valuation _ state _ _ =>
      have positive := Nat.two_pow_pos (valuation.unassigned names)
      change state.decisions + 2 ≤ _
      omega
  | @first _ valuation extended _ state later name consistent isNext _
      induction =>
      have fewer := unassigned_branch_lt monotone within consistent isNext
        firstValue
      have smaller := Nat.pow_le_pow_right Nat.two_pos fewer
      have positive := Nat.two_pow_pos (valuation.unassigned names)
      have below : later.decisions + 2 ≤ state.decisions + 1 +
          2 ^ ((extended.assign name firstValue).2.unassigned names).succ :=
        induction
      omega
  | @second _ valuation extended _ state failed later name consistent isNext
      _ _ firstInduction secondInduction =>
      have fewer := unassigned_branch_lt monotone within consistent isNext
      have firstSmaller := Nat.pow_le_pow_right Nat.two_pos (fewer firstValue)
      have secondSmaller :=
        Nat.pow_le_pow_right Nat.two_pos (fewer !firstValue)
      have firstBelow : failed.decisions + 2 ≤ state.decisions + 1 +
          2 ^ ((extended.assign name firstValue).2.unassigned names).succ :=
        firstInduction
      have secondBelow : later.decisions + 2 ≤ failed.decisions + 1 +
          2 ^ ((extended.assign name !firstValue).2.unassigned names).succ :=
        secondInduction
      omega

/-- Below a node that fails every conflict but one comes with two decisions,
and there is a conflict. -/
theorem decisions_of_unsatisfiable
    (explored : Explores propagator problem depth valuation state outcome
      later) (failed : outcome = .unsatisfiable) :
    later.decisions + 2 * state.conflicts + 2 =
        state.decisions + 2 * later.conflicts ∧
      state.conflicts < later.conflicts := by
  induction explored with
  | @conflict _ _ state _ =>
      change state.decisions + 2 * state.conflicts + 2 =
          state.decisions + 2 * (state.conflicts + 1) ∧
        state.conflicts < state.conflicts + 1
      omega
  | model => cases failed
  | first => cases failed
  | @second _ _ _ _ state middle later _ _ _ _ _ firstInduction
      secondInduction =>
      have first : middle.decisions + 2 * state.conflicts + 2 =
            state.decisions + 1 + 2 * middle.conflicts ∧
          state.conflicts < middle.conflicts := firstInduction rfl
      have second : later.decisions + 2 * middle.conflicts + 2 =
            middle.decisions + 1 + 2 * later.conflicts ∧
          middle.conflicts < later.conflicts := secondInduction failed
      omega

/-- On the way to the model there is a decision for every level, and another
one with a failed search below it where the second value was chosen. -/
theorem exists_descends {state later : State Nat}
    (explored : Explores unitPropagation problem depth valuation state outcome
      later) {model : Valuation} (found : outcome = .satisfiable model) :
    ∃ choices, Descends problem valuation choices model ∧
      later.decisions + 2 * state.conflicts =
        state.decisions + 2 * later.conflicts + choices.count firstValue ∧
      depth + choices.length ≤ later.maxDepth := by
  induction explored with
  | conflict => cases found
  | @model depth _ _ state consistent complete =>
      cases found
      rw [problem.cnf.result_propagate] at consistent
      exact ⟨[], .model consistent complete, rfl, Nat.le_max_right _ depth⟩
  | @first depth _ _ _ state later _ consistent isNext _ induction =>
      rw [problem.cnf.result_propagate] at consistent
      obtain ⟨choices, descends, counted, deep⟩ := induction found
      have below : later.decisions + 2 * state.conflicts =
          state.decisions + 1 + 2 * later.conflicts +
            choices.count firstValue := counted
      refine ⟨firstValue :: choices, .branch consistent isNext descends, ?_⟩
      rw [List.count_cons_self, List.length_cons]
      omega
  | @second depth _ _ _ state middle later _ consistent isNext failed _ _
      induction =>
      rw [problem.cnf.result_propagate] at consistent
      obtain ⟨choices, descends, counted, deep⟩ := induction found
      have first : middle.decisions + 2 * state.conflicts + 2 =
          state.decisions + 1 + 2 * middle.conflicts :=
        (failed.decisions_of_unsatisfiable rfl).1
      have below : later.decisions + 2 * middle.conflicts =
          middle.decisions + 1 + 2 * later.conflicts +
            choices.count firstValue := counted
      refine ⟨(!firstValue) :: choices, .branch consistent isNext descends, ?_⟩
      rw [List.count_cons_of_ne (by decide), List.length_cons]
      omega

/-- A recording propagator makes no difference to the search.  It is called
once at the node where the search starts and once for each decision. -/
theorem recorded
    (explored : Explores propagator problem depth valuation state outcome
      later) (calls : Array Node) :
    ∃ laterCalls : Array Node,
      Explores propagator.recording problem depth valuation
        (state.recorded calls) outcome (later.recorded laterCalls) ∧
      laterCalls.size + state.decisions =
        calls.size + later.decisions + 1 := by
  induction explored generalizing calls with
  | @conflict _ _ state conflict =>
      refine ⟨calls.push _, .conflict conflict, ?_⟩
      change (calls.push _).size + state.decisions =
        calls.size + state.decisions + 1
      rw [Array.size_push]
      omega
  | @model _ _ _ state consistent complete =>
      refine ⟨calls.push _, .model consistent complete, ?_⟩
      change (calls.push _).size + state.decisions =
        calls.size + state.decisions + 1
      rw [Array.size_push]
      omega
  | @first _ _ _ _ state later _ consistent isNext _ induction =>
      obtain ⟨laterCalls, branch, counted⟩ := induction (calls.push _)
      refine ⟨laterCalls, .first consistent isNext branch, ?_⟩
      have below : laterCalls.size + (state.decisions + 1) =
          (calls.push _).size + later.decisions + 1 := counted
      rw [Array.size_push] at below
      omega
  | @second _ _ _ _ state failed later _ consistent isNext _ _ firstInduction
      secondInduction =>
      obtain ⟨failedCalls, firstBranch, firstCounted⟩ :=
        firstInduction (calls.push _)
      obtain ⟨laterCalls, secondBranch, secondCounted⟩ :=
        secondInduction failedCalls
      refine ⟨laterCalls, .second consistent isNext firstBranch secondBranch,
        ?_⟩
      have first : failedCalls.size + (state.decisions + 1) =
          (calls.push _).size + failed.decisions + 1 := firstCounted
      have second : laterCalls.size + (failed.decisions + 1) =
          failedCalls.size + later.decisions + 1 := secondCounted
      rw [Array.size_push] at first
      omega

end Explores

/-- A search with a recording propagator ends as the search itself, with one
call more than decisions have been made. -/
theorem solveFrom_recording {σ : Type} {propagator : Propagator σ}
    (monotone : propagator.IsMonotone) (problem : Problem)
    (valuation : Valuation) (state : State σ) :
    ∃ calls : Array Node,
      solveFrom propagator.recording
          (Propagator.recording_isMonotone monotone) problem valuation
          (state.recorded #[]) =
        ((solveFrom propagator monotone problem valuation state).1,
          (solveFrom propagator monotone problem valuation
            state).2.recorded calls) ∧
      calls.size + state.decisions =
        (solveFrom propagator monotone problem valuation
          state).2.decisions + 1 := by
  obtain ⟨last, explored, ends⟩ :=
    explores_of_solveFrom monotone problem valuation state
  obtain ⟨calls, recorded, counted⟩ := explored.recorded #[]
  have answered : solveFrom propagator.recording
      (Propagator.recording_isMonotone monotone) problem valuation
      (state.recorded #[]) = _ := solveFrom_eq_of_explores _ recorded
  have size : calls.size + state.decisions = 0 + last.decisions + 1 := counted
  rw [answered, ends]
  refine ⟨calls, rfl, ?_⟩
  change calls.size + state.decisions = last.decisions + 1
  omega

end Search

/-- The cost of a search is what its tree has when no counts were there
before. -/
theorem Problem.exists_explores (problem : Problem) (seed : Valuation) :
    ∃ last, Search.Explores unitPropagation problem 0 seed (.start 0)
        (dpll seed problem.cnf problem.names) last ∧
      problem.cost seed = last.statistics unitPropagation := by
  obtain ⟨last, explored, ends⟩ := Search.explores_of_solveFrom
    unitPropagation_isMonotone problem seed (.start 0)
  refine ⟨last, explored, ?_⟩
  rw [cost, Problem.solveFrom, ends]
  rfl

/-- From every state a search adds the same counts, those of a fresh one, and
calls the propagator once more than it makes decisions.  It goes no deeper
than there are open variables.  If it fails, its decisions are two for every
conflict but one; if it finds a model, they are two for every conflict and one
for every level of the only way to this model at which the first value was
right. -/
theorem statistics_describe_search_tree (problem : Problem)
    (seed : Valuation) :
    (∀ state : Search.State Nat,
      (problem.solveFrom seed state).1 =
          dpll seed problem.cnf problem.names ∧
      (problem.solveFrom seed state).2.statistics unitPropagation =
          state.statistics unitPropagation + problem.cost seed ∧
      ∃ calls : Array Node,
        Search.solveFrom unitPropagation.recording
            (Propagator.recording_isMonotone unitPropagation_isMonotone)
            problem seed (state.recorded #[]) =
          ((problem.solveFrom seed state).1,
            (problem.solveFrom seed state).2.recorded calls) ∧
        calls.size = (problem.cost seed).decisions + 1) ∧
    (problem.cost seed).maxDepth ≤ seed.openVariables problem.names ∧
    (problem.cost seed).decisions ≤
      2 ^ (seed.openVariables problem.names + 1) - 2 ∧
    (dpll seed problem.cnf problem.names = .unsatisfiable →
      1 ≤ (problem.cost seed).conflicts ∧
      (problem.cost seed).decisions =
        2 * (problem.cost seed).conflicts - 2) ∧
    ∀ model, dpll seed problem.cnf problem.names = .satisfiable model →
      ∃ choices, Search.Descends problem seed choices model ∧
        (∀ others, Search.Descends problem seed others model →
          others = choices) ∧
        (problem.cost seed).decisions =
          2 * (problem.cost seed).conflicts +
            choices.count Search.firstValue ∧
        choices.length ≤ (problem.cost seed).maxDepth ∧
        2 * (problem.cost seed).conflicts ≤ (problem.cost seed).decisions ∧
        (problem.cost seed).decisions ≤
          2 * (problem.cost seed).conflicts + (problem.cost seed).maxDepth := by
  have within : ∀ name ∈ problem.names,
      name ∈ (Std.ExtTreeSet.ofList problem.names : NameSet).toList :=
    fun name => NameSet.mem_toList_ofList.mpr
  obtain ⟨last, explored, isCost⟩ := problem.exists_explores seed
  refine ⟨?_, ?_, ?_, ?_, ?_⟩
  · intro state
    obtain ⟨outcome, costs⟩ := problem.solveFrom_any_state seed state
    obtain ⟨calls, alike, counted⟩ := Search.solveFrom_recording
      unitPropagation_isMonotone problem seed state
    refine ⟨outcome, costs, calls, alike, ?_⟩
    have added : (problem.solveFrom seed state).2.decisions =
        state.decisions + (problem.cost seed).decisions :=
      congrArg Statistics.decisions costs
    change calls.size + state.decisions =
      (problem.solveFrom seed state).2.decisions + 1 at counted
    omega
  · rw [isCost]
    have bound : last.maxDepth ≤
        max 0 (0 + seed.openVariables problem.names) :=
      explored.maxDepth_le unitPropagation_isMonotone within
    change last.maxDepth ≤ seed.openVariables problem.names
    omega
  · rw [isCost]
    have bound : last.decisions + 2 ≤
        0 + 2 ^ (seed.openVariables problem.names + 1) :=
      explored.decisions_le unitPropagation_isMonotone within
    change last.decisions ≤ 2 ^ (seed.openVariables problem.names + 1) - 2
    omega
  · intro failed
    rw [isCost]
    have counts : last.decisions + 2 * 0 + 2 = 0 + 2 * last.conflicts ∧
        0 < last.conflicts := explored.decisions_of_unsatisfiable failed
    change 1 ≤ last.conflicts ∧ last.decisions = 2 * last.conflicts - 2
    omega
  · intro model found
    rw [isCost]
    obtain ⟨choices, descends, counted, deep⟩ :=
      explored.exists_descends found
    have counts : last.decisions + 2 * 0 =
        0 + 2 * last.conflicts + choices.count Search.firstValue := counted
    have few : choices.count Search.firstValue ≤ choices.length :=
      List.count_le_length
    refine ⟨choices, descends, fun _ other => descends.unique other, ?_⟩
    change last.decisions =
        2 * last.conflicts + choices.count Search.firstValue ∧
      choices.length ≤ last.maxDepth ∧
      2 * last.conflicts ≤ last.decisions ∧
      last.decisions ≤ 2 * last.conflicts + last.maxDepth
    omega

end PropSat
