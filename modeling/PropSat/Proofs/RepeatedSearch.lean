import PropSat.Proofs.SearchDecision

/-!
# Searches one after another

A solver keeps its counters and its propagator from one search to the next.
Neither is looked at: what a propagator that only counts finds depends on the
valuation alone, so that the whole tree of a search is the same from every
state.  What the search adds to the counters is its cost, which is composed of
the costs of its nodes.  After several searches the counters have the sum of
their costs.
-/

namespace PropSat

namespace Statistics

def add (first second : Statistics) : Statistics where
  decisions := first.decisions + second.decisions
  propagations := first.propagations + second.propagations
  conflicts := first.conflicts + second.conflicts
  maxDepth := max first.maxDepth second.maxDepth

instance : Add Statistics := ⟨add⟩

def zero : Statistics := ⟨0, 0, 0, 0⟩

instance : Zero Statistics := ⟨zero⟩

def total : List Statistics → Statistics
  | [] => 0
  | first :: rest => first + total rest

theorem add_def (first second : Statistics) :
    first + second = ⟨first.decisions + second.decisions,
      first.propagations + second.propagations,
      first.conflicts + second.conflicts,
      max first.maxDepth second.maxDepth⟩ := rfl

theorem add_assoc (first second third : Statistics) :
    first + second + third = first + (second + third) := by
  simp [add_def, Nat.add_assoc, Nat.max_assoc]

theorem zero_def : (0 : Statistics) = ⟨0, 0, 0, 0⟩ := rfl

theorem add_zero (statistics : Statistics) : statistics + 0 = statistics := by
  simp [add_def, zero_def]

theorem zero_add (statistics : Statistics) : 0 + statistics = statistics := by
  simp [add_def, zero_def]

end Statistics

/-- What the propagator finds does not depend on its state, and neither does
what a call adds to its count. -/
def Propagator.OnlyCounts {σ : Type} (propagator : Propagator σ) : Prop :=
  ∀ cnf valuation, ∃ result forced, ∀ state,
    (propagator.propagate cnf valuation state).result = result ∧
    propagator.propagations
        (propagator.propagate cnf valuation state).state =
      propagator.propagations state + forced

namespace UnitPropagation

variable {clauses : List Clause} {valuation : Valuation}

def Pass.forced : Pass → Nat
  | .complete _ _ forced _ => forced
  | .conflict forced _ => forced

/-- What a pass comes to with another count and other events. -/
def Pass.recounted : Pass → Nat → Array Event → Pass
  | .complete valuation kept _ _, forced, events =>
      .complete valuation kept forced events
  | .conflict _ _, forced, events => .conflict forced events

theorem pass_any_count (clauses : List Clause) (valuation : Valuation)
    (kept : List Clause) (forced : Nat) (events : Array Event) :
    ∃ count,
      (pass clauses valuation kept forced events).forced = forced + count ∧
      ∀ other otherEvents, ∃ later,
        pass clauses valuation kept other otherEvents =
          (pass clauses valuation kept forced events).recounted
            (other + count) later := by
  induction clauses generalizing valuation kept forced events with
  | nil =>
      refine ⟨0, rfl, ?_⟩
      intro other otherEvents
      exact ⟨otherEvents, rfl⟩
  | cons clause rest induction =>
      cases status : clause.status valuation with
      | satisfied => simpa [pass, status] using induction valuation kept _ _
      | undetermined =>
          simpa [pass, status] using induction valuation (clause :: kept) _ _
      | falsified =>
          refine ⟨0, by simp [pass, status, Pass.forced], ?_⟩
          intro other otherEvents
          simp [pass, status, Pass.recounted]
      | unit literal =>
          obtain ⟨count, counted, same⟩ := induction
            (valuation.satisfy literal) kept (forced + 1)
            (events.push (.forces clause literal))
          refine ⟨1 + count, ?_, ?_⟩
          · simpa [pass, status, Nat.add_assoc] using counted
          · intro other otherEvents
            simpa [pass, status, Nat.add_assoc] using same (other + 1) _

theorem pass_conflict_any_count {kept : List Clause} {forced total : Nat}
    {events later : Array Event}
    (conflict : pass clauses valuation kept forced events =
      .conflict total later) :
    ∃ count, total = forced + count ∧ ∀ other otherEvents, ∃ otherLater,
      pass clauses valuation kept other otherEvents =
        .conflict (other + count) otherLater := by
  obtain ⟨count, counted, same⟩ :=
    pass_any_count clauses valuation kept forced events
  rw [conflict] at counted same
  exact ⟨count, counted, same⟩

theorem pass_complete_any_count {kept left : List Clause}
    {extended : Valuation} {forced total : Nat} {events later : Array Event}
    (complete : pass clauses valuation kept forced events =
      .complete extended left total later) :
    ∃ count, total = forced + count ∧ ∀ other otherEvents, ∃ otherLater,
      pass clauses valuation kept other otherEvents =
        .complete extended left (other + count) otherLater := by
  obtain ⟨count, counted, same⟩ :=
    pass_any_count clauses valuation kept forced events
  rw [complete] at counted same
  exact ⟨count, counted, same⟩

/-- Neither the count nor the events at the start matter for what is found
and for how much is counted. -/
theorem run_any_count (clauses : List Clause) (valuation : Valuation)
    (forced other : Nat) (events otherEvents : Array Event) :
    (run clauses valuation other otherEvents).result =
        (run clauses valuation forced events).result ∧
      ∃ count, (run clauses valuation forced events).state = forced + count ∧
        (run clauses valuation other otherEvents).state = other + count := by
  fun_induction run clauses valuation forced events
    generalizing other otherEvents with
  | case1 clauses valuation forced events total later conflict =>
      obtain ⟨count, counted, same⟩ := pass_conflict_any_count conflict
      obtain ⟨_, otherConflict⟩ := same other otherEvents
      rw [run_of_conflict otherConflict]
      exact ⟨rfl, count, counted, rfl⟩
  | case2 clauses valuation forced events extended kept total later complete
      more induction =>
      obtain ⟨count, rfl, same⟩ := pass_complete_any_count complete
      obtain ⟨_, otherComplete⟩ := same other otherEvents
      rw [run_of_complete otherComplete, if_pos (by omega)]
      obtain ⟨sameResult, rest, counted, otherCounted⟩ :=
        induction (other + count) _
      refine ⟨sameResult, count + rest, ?_, ?_⟩
      · rw [counted, Nat.add_assoc]
      · rw [otherCounted, Nat.add_assoc]
  | case3 clauses valuation forced events extended kept total later complete
      idle =>
      obtain ⟨count, rfl, same⟩ := pass_complete_any_count complete
      obtain ⟨_, otherComplete⟩ := same other otherEvents
      rw [run_of_complete otherComplete, if_neg (by omega)]
      exact ⟨rfl, count, rfl, rfl⟩

end UnitPropagation

theorem unitPropagation_onlyCounts : unitPropagation.OnlyCounts := by
  intro cnf valuation
  obtain ⟨_, count, counted, _⟩ :=
    UnitPropagation.run_any_count cnf.clauses valuation 0 0 #[] #[]
  refine ⟨cnf.propagate valuation, count, ?_⟩
  intro forced
  obtain ⟨sameResult, otherCount, otherCounted, same⟩ :=
    UnitPropagation.run_any_count cnf.clauses valuation 0 forced #[] #[]
  refine ⟨sameResult, ?_⟩
  rw [counted] at otherCounted
  have sameCount : count = otherCount := by omega
  rw [sameCount]
  exact same

namespace Search

variable {σ : Type} {propagator : Propagator σ} {problem : Problem}

/-- What the counters of a state show is added up to what those of the later
one show. -/
def State.Costs (propagator : Propagator σ) (state later : State σ)
    (cost : Statistics) : Prop :=
  later.statistics propagator = state.statistics propagator + cost

namespace State.Costs

theorem trans {state middle later : State σ} {first second : Statistics}
    (before : Costs propagator state middle first)
    (after : Costs propagator middle later second) :
    Costs propagator state later (first + second) := by
  unfold Costs at before after ⊢
  rw [after, before, Statistics.add_assoc]

theorem fail (state : State σ) (depth : Nat) :
    Costs propagator state (state.fail depth) ⟨0, 0, 1, 0⟩ := by
  simp [Costs, statistics, State.fail, Statistics.add_def]

theorem decide (state : State σ) (depth : Nat) (name : String)
    (value : Bool) :
    Costs propagator state (state.decide depth name value) ⟨1, 0, 0, 0⟩ := by
  simp [Costs, statistics, State.decide, Statistics.add_def]

end State.Costs

/-- A node is entered alike from every state, at the same cost. -/
theorem visit_any_state (counts : propagator.OnlyCounts)
    {valuation : Valuation} {state : State σ} {result : Propagation}
    (found : (propagator.propagate problem.cnf valuation
      state.propagator).result = result) (depth : Nat) :
    ∃ cost,
      state.Costs propagator
        (state.visit propagator problem depth valuation) cost ∧
      ∀ other : State σ,
        (propagator.propagate problem.cnf valuation
          other.propagator).result = result ∧
        other.Costs propagator
          (other.visit propagator problem depth valuation) cost := by
  obtain ⟨answer, forced, same⟩ := counts problem.cnf valuation
  have costs (current : State σ) : current.Costs propagator
      (current.visit propagator problem depth valuation)
      ⟨0, forced, 0, depth⟩ := by
    simp [State.Costs, State.statistics, State.visit, State.enter,
      State.inferred, Statistics.add_def, (same _).2]
  refine ⟨_, costs state, ?_⟩
  intro other
  rw [← found, (same _).1, (same _).1]
  exact ⟨rfl, costs other⟩

/-- From every state the search is explored alike, at the same cost. -/
theorem Explores.from_any_state {depth : Nat} {valuation : Valuation}
    {state later : State σ} {outcome : Outcome}
    (counts : propagator.OnlyCounts)
    (explored : Explores propagator problem depth valuation state outcome
      later) :
    ∃ cost, state.Costs propagator later cost ∧
      ∀ other, ∃ otherLater,
        Explores propagator problem depth valuation other outcome otherLater ∧
        other.Costs propagator otherLater cost := by
  induction explored with
  | @conflict depth _ _ conflict =>
      obtain ⟨_, here, alike⟩ := visit_any_state counts conflict depth
      refine ⟨_, here.trans (.fail _ depth), ?_⟩
      intro other
      obtain ⟨otherConflict, otherHere⟩ := alike other
      exact ⟨_, .conflict otherConflict, otherHere.trans (.fail _ depth)⟩
  | @model depth _ _ _ consistent complete =>
      obtain ⟨_, here, alike⟩ := visit_any_state counts consistent depth
      refine ⟨_, here, ?_⟩
      intro other
      obtain ⟨otherConsistent, otherHere⟩ := alike other
      exact ⟨_, .model otherConsistent complete, otherHere⟩
  | @first depth _ _ _ _ _ name consistent isNext _ induction =>
      obtain ⟨_, here, alike⟩ := visit_any_state counts consistent depth
      obtain ⟨_, branch, branchAlike⟩ := induction
      have decided (current : State σ) : current.Costs propagator
          (current.decide depth name firstValue) ⟨1, 0, 0, 0⟩ :=
        .decide current depth name firstValue
      refine ⟨_, (here.trans (decided _)).trans branch, ?_⟩
      intro other
      obtain ⟨otherConsistent, otherHere⟩ := alike other
      obtain ⟨otherLater, otherExplored, otherBranch⟩ := branchAlike _
      exact ⟨otherLater, .first otherConsistent isNext otherExplored,
        (otherHere.trans (decided _)).trans otherBranch⟩
  | @second depth _ _ _ _ _ _ name consistent isNext _ _ firstInduction
      secondInduction =>
      obtain ⟨_, here, alike⟩ := visit_any_state counts consistent depth
      obtain ⟨_, first, firstAlike⟩ := firstInduction
      obtain ⟨_, second, secondAlike⟩ := secondInduction
      have decided (current : State σ) (value : Bool) :
          current.Costs propagator (current.decide depth name value)
            ⟨1, 0, 0, 0⟩ :=
        .decide current depth name value
      refine ⟨_, (((here.trans (decided _ _)).trans first).trans
        (decided _ _)).trans second, ?_⟩
      intro other
      obtain ⟨otherConsistent, otherHere⟩ := alike other
      obtain ⟨_, otherFailed, otherFirst⟩ := firstAlike _
      obtain ⟨otherLater, otherExplored, otherSecond⟩ := secondAlike _
      exact ⟨otherLater,
        .second otherConsistent isNext otherFailed otherExplored,
        (((otherHere.trans (decided _ _)).trans otherFirst).trans
          (decided _ _)).trans otherSecond⟩

/-- Searches from two states have the same outcome and the same cost. -/
theorem solveFrom_any_state (counts : propagator.OnlyCounts)
    (monotone : propagator.IsMonotone) (problem : Problem)
    (valuation : Valuation) (state other : State σ) :
    (solveFrom propagator monotone problem valuation other).1 =
        (solveFrom propagator monotone problem valuation state).1 ∧
      ∃ cost, state.Costs propagator
          (solveFrom propagator monotone problem valuation state).2 cost ∧
        other.Costs propagator
          (solveFrom propagator monotone problem valuation other).2 cost := by
  obtain ⟨last, explored, ends⟩ := explores_of_solveFrom monotone problem
    valuation state
  obtain ⟨cost, costs, alike⟩ := explored.from_any_state counts
  obtain ⟨_, otherExplored, otherCosts⟩ := alike { other with events := #[] }
  rw [solveFrom_eq_of_explores monotone otherExplored, ends]
  exact ⟨rfl, cost, costs, otherCosts⟩

end Search

namespace Problem

/-- The outcomes of searches from several valuations, one after another, and
the state after them. -/
def solveEach (problem : Problem) :
    List Valuation → Search.State Nat → List Outcome × Search.State Nat
  | [], state => ([], state)
  | seed :: rest, state =>
      let (outcome, state) := problem.solveFrom seed state
      let (outcomes, state) := problem.solveEach rest state
      (outcome :: outcomes, state)

/-- What a search with fresh counters counts. -/
def cost (problem : Problem) (seed : Valuation) : Statistics :=
  (problem.solveFrom seed (.start 0)).2.statistics unitPropagation

theorem solveFrom_any_state (problem : Problem) (seed : Valuation)
    (state : Search.State Nat) :
    (problem.solveFrom seed state).1 =
        dpll seed problem.cnf problem.names ∧
      state.Costs unitPropagation (problem.solveFrom seed state).2
        (problem.cost seed) := by
  obtain ⟨sameOutcome, found, fresh, costs⟩ := Search.solveFrom_any_state
    unitPropagation_onlyCounts unitPropagation_isMonotone problem seed
    (.start 0) state
  have isCost : problem.cost seed = found := by
    rw [← Statistics.zero_add found]
    exact fresh
  rw [isCost]
  exact ⟨sameOutcome, costs⟩

theorem solveEach_any_state (problem : Problem) (seeds : List Valuation)
    (state : Search.State Nat) :
    (problem.solveEach seeds state).1 =
        seeds.map (dpll · problem.cnf problem.names) ∧
      state.Costs unitPropagation (problem.solveEach seeds state).2
        (.total (seeds.map problem.cost)) := by
  induction seeds generalizing state with
  | nil => exact ⟨rfl, (Statistics.add_zero _).symm⟩
  | cons seed rest induction =>
      obtain ⟨outcome, first⟩ := problem.solveFrom_any_state seed state
      obtain ⟨outcomes, later⟩ :=
        induction (problem.solveFrom seed state).2
      rw [List.map_cons, List.map_cons, ← outcome, ← outcomes]
      exact ⟨rfl, first.trans later⟩

end Problem

/-- However many searches a solver has made, each outcome is that of a fresh
solver, and the counters show the sums over fresh searches, and the depth of
the deepest. -/
theorem solver_keeps_no_memory (problem : Problem) (seeds : List Valuation) :
    (problem.solveEach seeds (.start 0)).1 =
        seeds.map (dpll · problem.cnf problem.names) ∧
    (problem.solveEach seeds (.start 0)).2.statistics unitPropagation =
      .total (seeds.map fun seed =>
        (problem.solveFrom seed (.start 0)).2.statistics unitPropagation) := by
  obtain ⟨outcomes, costs⟩ := problem.solveEach_any_state seeds (.start 0)
  refine ⟨outcomes, ?_⟩
  rw [← Statistics.zero_add (.total _)]
  exact costs

end PropSat
