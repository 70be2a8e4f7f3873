import PropSat.Proofs.Extension
import PropSat.Search

/-!
# The tree that a search explores

`Explores` describes a search below a node without a bound on the depth, one
rule for each way in which a node can end: propagation meets a conflict, all
variables have a value, the first value leads to a model, or the first value
fails and the second one decides.  The bounded search follows these rules, and
a bound that suffices gives the same answer as any larger one.

What holds of every node of a search is proved on the relation once, for any
property that propagation and branching preserve.
-/

namespace PropSat

namespace Search

variable {σ : Type} {propagator : Propagator σ} {problem : Problem}

/-- The state after a node has been entered and propagation has run there. -/
def State.visit (state : State σ) (propagator : Propagator σ)
    (problem : Problem) (depth : Nat) (valuation : Valuation) : State σ :=
  (state.enter depth).inferred
    (propagator.propagate problem.cnf valuation state.propagator)

/-- The search below a node at the given depth, with the valuation and the
state in which it is entered, ends with an outcome and a state. -/
inductive Explores (propagator : Propagator σ) (problem : Problem) :
    Nat → Valuation → State σ → Outcome → State σ → Prop where
  | conflict {depth : Nat} {valuation : Valuation} {state : State σ} :
      (propagator.propagate problem.cnf valuation state.propagator).result =
        .conflict →
      Explores propagator problem depth valuation state .unsatisfiable
        ((state.visit propagator problem depth valuation).fail depth)
  | model {depth : Nat} {valuation model : Valuation} {state : State σ} :
      (propagator.propagate problem.cnf valuation state.propagator).result =
        .consistent model →
      nextVariable problem.names model = none →
      Explores propagator problem depth valuation state (.satisfiable model)
        (state.visit propagator problem depth valuation)
  | first {depth : Nat} {valuation extended model : Valuation}
      {state later : State σ} {name : String} :
      (propagator.propagate problem.cnf valuation state.propagator).result =
        .consistent extended →
      nextVariable problem.names extended = some name →
      Explores propagator problem (depth + 1)
        (extended.assign name firstValue)
        ((state.visit propagator problem depth valuation).decide depth name
          firstValue)
        (.satisfiable model) later →
      Explores propagator problem depth valuation state (.satisfiable model)
        later
  | second {depth : Nat} {valuation extended : Valuation} {outcome : Outcome}
      {state failed later : State σ} {name : String} :
      (propagator.propagate problem.cnf valuation state.propagator).result =
        .consistent extended →
      nextVariable problem.names extended = some name →
      Explores propagator problem (depth + 1)
        (extended.assign name firstValue)
        ((state.visit propagator problem depth valuation).decide depth name
          firstValue)
        .unsatisfiable failed →
      Explores propagator problem (depth + 1)
        (extended.assign name !firstValue)
        (failed.decide depth name !firstValue) outcome later →
      Explores propagator problem depth valuation state outcome later

theorem explores_of_searchWithin {bound depth : Nat} {valuation : Valuation}
    {state later : State σ} {outcome : Outcome}
    (found : searchWithin propagator problem bound depth valuation state =
      some (outcome, later)) :
    Explores propagator problem depth valuation state outcome later := by
  induction bound generalizing depth valuation state outcome later with
  | zero => cases found
  | succ bound induction =>
      unfold searchWithin at found
      dsimp only at found
      split at found
      · next conflict =>
          cases found
          exact .conflict conflict
      · next extended consistent =>
          split at found
          · next complete =>
              cases found
              exact .model consistent complete
          · next name isNext =>
              split at found
              · cases found
              · next model middle firstFound =>
                  cases found
                  exact .first consistent isNext (induction firstFound)
              · next failed firstFailed =>
                  exact .second consistent isNext (induction firstFailed)
                    (induction found)

/-- Every exploration is found by the bounded search, once the bound is above
its depth. -/
theorem Explores.exists_searchWithin {depth : Nat} {valuation : Valuation}
    {state later : State σ} {outcome : Outcome}
    (explored : Explores propagator problem depth valuation state outcome
      later) :
    ∃ enough, ∀ bound, enough ≤ bound →
      searchWithin propagator problem bound depth valuation state =
        some (outcome, later) := by
  induction explored with
  | conflict conflict =>
      refine ⟨1, ?_⟩
      intro bound large
      obtain ⟨bound, rfl⟩ := Nat.exists_eq_add_of_le' large
      unfold searchWithin
      simp [State.enter, conflict, State.visit]
  | model consistent complete =>
      refine ⟨1, ?_⟩
      intro bound large
      obtain ⟨bound, rfl⟩ := Nat.exists_eq_add_of_le' large
      unfold searchWithin
      simp [State.enter, State.visit, consistent, complete]
  | first consistent isNext _ induction =>
      obtain ⟨enough, found⟩ := induction
      refine ⟨enough + 1, ?_⟩
      intro bound large
      obtain ⟨bound, rfl⟩ := Nat.exists_eq_add_of_le' large
      have branch := found (bound + enough) (Nat.le_add_left _ _)
      unfold State.visit State.enter at branch
      unfold searchWithin
      simp [State.enter, consistent, isNext, branch]
  | second consistent isNext _ _ firstInduction secondInduction =>
      obtain ⟨firstEnough, firstFound⟩ := firstInduction
      obtain ⟨secondEnough, secondFound⟩ := secondInduction
      refine ⟨max firstEnough secondEnough + 1, ?_⟩
      intro bound large
      obtain ⟨bound, rfl⟩ := Nat.exists_eq_add_of_le' large
      have branch := firstFound (bound + max firstEnough secondEnough)
        (by omega)
      unfold State.visit State.enter at branch
      unfold searchWithin
      simp [State.enter, consistent, isNext, branch]
      apply secondFound
      omega

/-- A bound that suffices can be raised without changing the answer. -/
theorem searchWithin_mono {small large depth : Nat} {valuation : Valuation}
    {state : State σ} {result : Outcome × State σ} (le : small ≤ large)
    (found : searchWithin propagator problem small depth valuation state =
      some result) :
    searchWithin propagator problem large depth valuation state =
      some result := by
  induction small generalizing large depth valuation state result with
  | zero => cases found
  | succ small induction =>
      obtain ⟨large, rfl⟩ : ∃ bound, large = bound + 1 :=
        ⟨large - 1, by omega⟩
      have smaller : small ≤ large := Nat.le_of_succ_le_succ le
      unfold searchWithin at found ⊢
      dsimp only at found ⊢
      split at found
      · exact found
      · split at found
        · exact found
        · split at found
          · cases found
          · next model later firstFound =>
              rw [induction smaller firstFound]
              exact found
          · next failed firstFailed =>
              rw [induction smaller firstFailed]
              exact induction smaller found

theorem nextVariable_eq_none_iff {names : List String}
    {valuation : Valuation} :
    nextVariable names valuation = none ↔
      valuation.isTotalOver names = true := by
  rw [nextVariable, List.find?_eq_none, Valuation.isTotalOver_iff]
  simp

/-- The names before the next variable all have a value. -/
theorem nextVariable_eq_some_iff {names : List String}
    {valuation : Valuation} {name : String} :
    nextVariable names valuation = some name ↔
      valuation.contains name = false ∧
        ∃ before after, names = before ++ name :: after ∧
          ∀ other ∈ before, valuation.contains other = true := by
  rw [nextVariable, List.find?_eq_some_iff_append]
  simp

/-- A property of valuations that propagation and branching preserve holds of
the last node before a model, where propagation finds that model. -/
theorem Explores.exists_last_node {depth : Nat} {valuation model : Valuation}
    {state later : State σ} {outcome : Outcome}
    (explored : Explores propagator problem depth valuation state outcome
      later)
    (found : outcome = .satisfiable model) (Holds : Valuation → Prop)
    (propagates : ∀ node (current : State σ) extended, Holds node →
      (propagator.propagate problem.cnf node current.propagator).result =
        .consistent extended → Holds extended)
    (branches : ∀ node name value, Holds node → name ∈ problem.names →
      node.contains name = false → Holds (node.assign name value))
    (start : Holds valuation) :
    ∃ node, ∃ current : State σ, Holds node ∧
      (propagator.propagate problem.cnf node current.propagator).result =
        .consistent model ∧
      model.isTotalOver problem.names = true := by
  induction explored with
  | conflict => cases found
  | @model depth valuation _ state consistent complete =>
      cases found
      exact ⟨valuation, state, start, consistent,
        nextVariable_eq_none_iff.mp complete⟩
  | first consistent isNext _ induction =>
      obtain ⟨member, isOpen⟩ := nextVariable_eq_some isNext
      have here := propagates _ _ _ start consistent
      exact induction found (branches _ _ _ here member isOpen)
  | second consistent isNext _ _ _ induction =>
      obtain ⟨member, isOpen⟩ := nextVariable_eq_some isNext
      have here := propagates _ _ _ start consistent
      exact induction found (branches _ _ _ here member isOpen)

/-- A search from a state ends as the exploration from that state without its
events does. -/
theorem explores_of_solveWithin {bound : Nat} {valuation : Valuation}
    {state later : State σ} {outcome : Outcome}
    (found : solveWithin propagator bound problem valuation state =
      some (outcome, later)) :
    ∃ last, Explores propagator problem 0 valuation
        { state with events := #[] } outcome last ∧
      later = last.finish outcome := by
  obtain ⟨⟨answer, last⟩, within, ends⟩ := Option.map_eq_some_iff.mp found
  cases ends
  exact ⟨last, explores_of_searchWithin within, rfl⟩

theorem solveWithin_mono {small large : Nat} {valuation : Valuation}
    {state : State σ} {result : Outcome × State σ} (le : small ≤ large)
    (found : solveWithin propagator small problem valuation state =
      some result) :
    solveWithin propagator large problem valuation state = some result := by
  unfold solveWithin at found ⊢
  obtain ⟨last, within, ends⟩ := Option.map_eq_some_iff.mp found
  rw [searchWithin_mono le within, Option.map_some, ends]

theorem solveWithin_length_eq_solveFrom (monotone : propagator.IsMonotone)
    (problem : Problem) (valuation : Valuation) (state : State σ) :
    solveWithin propagator (problem.names.length + 1) problem valuation
      state = some (solveFrom propagator monotone problem valuation state) := by
  simp [solveFrom]

theorem explores_of_solveFrom (monotone : propagator.IsMonotone)
    (problem : Problem) (valuation : Valuation) (state : State σ) :
    ∃ later, Explores propagator problem 0 valuation
        { state with events := #[] }
        (solveFrom propagator monotone problem valuation state).1 later ∧
      (solveFrom propagator monotone problem valuation state).2 =
        later.finish
          (solveFrom propagator monotone problem valuation state).1 :=
  explores_of_solveWithin
    (solveWithin_length_eq_solveFrom monotone problem valuation state)

/-- A search that can be explored is what is answered. -/
theorem solveFrom_eq_of_explores (monotone : propagator.IsMonotone)
    {valuation : Valuation} {state last : State σ} {outcome : Outcome}
    (explored : Explores propagator problem 0 valuation
      { state with events := #[] } outcome last) :
    solveFrom propagator monotone problem valuation state =
      (outcome, last.finish outcome) := by
  obtain ⟨enough, found⟩ := explored.exists_searchWithin
  have large := Nat.le_max_left enough (problem.names.length + 1)
  have answered := solveWithin_mono (Nat.le_max_right enough _)
    (solveWithin_length_eq_solveFrom monotone problem valuation state)
  rw [solveWithin, found _ large] at answered
  exact (Option.some.inj answered).symm

/-- Every bound above the number of open places gives the answer of the search
without a bound. -/
theorem solveWithin_eq_solveFrom (monotone : propagator.IsMonotone)
    {bound : Nat} {valuation : Valuation}
    (enough : valuation.unassigned problem.names < bound)
    (state : State σ) :
    solveWithin propagator bound problem valuation state =
      some (solveFrom propagator monotone problem valuation state) := by
  have answered := solveWithin_length_eq_solveFrom monotone problem valuation
    state
  have isSome : (solveWithin propagator bound problem valuation
      state).isSome := by
    rw [solveWithin, Option.isSome_map]
    exact searchWithin_isSome monotone problem enough 0 _
  obtain ⟨result, found⟩ := Option.isSome_iff_exists.mp isSome
  have largest := Nat.le_max_left bound (problem.names.length + 1)
  rw [found, ← solveWithin_mono largest found]
  exact solveWithin_mono (Nat.le_max_right _ _) answered

end Search

end PropSat
