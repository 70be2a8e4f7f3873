import PropSat.Proofs.FirstModel

/-!
# Lawful propagators are interchangeable

A propagator is lawful for a problem when it preserves the models and does not
complete a valuation to anything but a model.  What one lawful propagator
forces another one may leave to branching, so that their search trees have
different shapes and cannot be compared node by node.  Their answers are
compared through the models instead: a search that fails has lost none, and
the first model of a search comes before all others, which determines its
values on the variables of the problem.
-/

namespace PropSat

/-- A propagator that preserves models, and satisfies the clauses once all
variables to branch on have a value. -/
structure Propagator.IsLawful {σ : Type} (propagator : Propagator σ)
    (problem : Problem) (seed : Valuation) : Prop
    extends propagator.PreservesModels problem.cnf seed where
  completes : ∀ (valuation : Valuation) (state : σ) (extended : Valuation),
    valuation.Extends seed →
    (propagator.propagate problem.cnf valuation state).result =
      .consistent extended →
    extended.isTotalOver problem.names = true →
    problem.cnf.isSatisfiedBy extended = true

theorem unitPropagation_isLawful {problem : Problem} {seed : Valuation}
    (covered : problem.IsCovered seed) :
    unitPropagation.IsLawful problem seed where
  toPreservesModels := unitPropagation_preservesModels problem.cnf seed
  completes _ _ _ fromSeed consistent total := by
    have closure := UnitPropagation.run_isClosureOf consistent
    apply closure.closed.isSatisfiedBy
    exact covered.contains (closure.grows.trans fromSeed) total

namespace Search

variable {σ τ : Type} {propagator : Propagator σ}
  {otherPropagator : Propagator τ} {problem : Problem} {seed : Valuation}

/-- A lawful propagator lets the search end: below the seed it takes back no
assignment. -/
theorem exists_solveWithin_eq
    (preserves : propagator.PreservesModels problem.cnf seed)
    (state : State σ) :
    ∃ result, ∀ bound, seed.unassigned problem.names < bound →
      solveWithin propagator bound problem seed state = some result := by
  have isSome : (solveWithin propagator (seed.unassigned problem.names + 1)
      problem seed state).isSome := by
    rw [solveWithin, Option.isSome_map]
    apply searchWithin_isSome_of_invariant fun node => node.Extends seed
    · intro node state extended fromSeed consistent
      have grows := preserves.grows node state extended fromSeed consistent
      exact ⟨grows.trans fromSeed, grows.covers⟩
    · intro node name value fromSeed isOpen
      exact (Valuation.extends_assign isOpen value).trans fromSeed
    · exact .refl seed
    · exact Nat.lt_succ_self _
  obtain ⟨result, found⟩ := Option.isSome_iff_exists.mp isSome
  refine ⟨result, ?_⟩
  intro bound enough
  exact solveWithin_mono enough found

namespace Explores

variable {depth otherDepth : Nat} {outcome otherOutcome : Outcome}
  {state later : State σ} {otherState otherLater : State τ}
  {model otherModel : Valuation}

theorem isModel
    (explored : Explores propagator problem depth seed state outcome later)
    (lawful : propagator.IsLawful problem seed)
    (found : outcome = .satisfiable model) :
    model.isTotalOver problem.names = true ∧
      problem.cnf.isSatisfiedBy model = true := by
  obtain ⟨node, current, fromSeed, consistent, total⟩ :=
    explored.exists_last_node found (fun node => node.Extends seed)
      (by
        intro node current extended fromSeed consistent
        exact (lawful.grows node _ extended fromSeed consistent).trans
          fromSeed)
      (by
        intro node name value fromSeed _ isOpen
        exact (Valuation.extends_assign isOpen value).trans fromSeed)
      (.refl seed)
  exact ⟨total, lawful.completes node _ model fromSeed consistent total⟩

/-- A model that one search finds is not lost by the other. -/
theorem isSat_of_isSat
    (explored : Explores propagator problem depth seed state outcome later)
    (otherExplored : Explores otherPropagator problem otherDepth seed
      otherState otherOutcome otherLater)
    (lawful : propagator.IsLawful problem seed)
    (otherPreserves : otherPropagator.PreservesModels problem.cnf seed)
    (isSat : outcome.isSat = true) : otherOutcome.isSat = true := by
  cases outcome with
  | unsatisfiable => cases isSat
  | satisfiable model =>
      cases otherOutcome with
      | satisfiable otherModel => rfl
      | unsatisfiable =>
          obtain ⟨_, satisfied⟩ := explored.isModel lawful rfl
          have grows := explored.grows lawful.toPreservesModels (.refl seed)
            rfl
          rw [otherExplored.no_model otherPreserves (.refl seed) rfl grows]
            at satisfied
          cases satisfied

theorem isSat_eq
    (explored : Explores propagator problem depth seed state outcome later)
    (otherExplored : Explores otherPropagator problem otherDepth seed
      otherState otherOutcome otherLater)
    (lawful : propagator.IsLawful problem seed)
    (otherLawful : otherPropagator.IsLawful problem seed) :
    outcome.isSat = otherOutcome.isSat := by
  rw [Bool.eq_iff_iff]
  constructor
  · exact explored.isSat_of_isSat otherExplored lawful
      otherLawful.toPreservesModels
  · exact otherExplored.isSat_of_isSat explored otherLawful
      lawful.toPreservesModels

/-- Each of the two models comes before the other. -/
theorem models_agree
    (explored : Explores propagator problem depth seed state
      (.satisfiable model) later)
    (otherExplored : Explores otherPropagator problem otherDepth seed
      otherState (.satisfiable otherModel) otherLater)
    (lawful : propagator.IsLawful problem seed)
    (otherLawful : otherPropagator.IsLawful problem seed) :
    ∀ name ∈ problem.names, model.get? name = otherModel.get? name := by
  have preserves := lawful.toPreservesModels
  have otherPreserves := otherLawful.toPreservesModels
  obtain ⟨total, satisfied⟩ := explored.isModel lawful rfl
  obtain ⟨otherTotal, otherSatisfied⟩ := otherExplored.isModel otherLawful rfl
  have grows := explored.grows preserves (.refl seed) rfl
  have otherGrows := otherExplored.grows otherPreserves (.refl seed) rfl
  have forward := explored.precedes preserves (.refl seed) rfl otherGrows
    otherTotal otherSatisfied
  have backward := otherExplored.precedes otherPreserves (.refl seed) rfl
    grows total satisfied
  exact forward.antisymm backward

end Explores

end Search

/-- Unit propagation is lawful.  A search with any lawful propagator, from any
state, ends within every bound above the number of open places, and agrees
with the search by unit propagation on the verdict and, where there is a
model, on the value of every name. -/
theorem lawful_search_agrees (seed : Valuation) (cnf : Cnf)
    (names : List String) (covered : Problem.IsCovered ⟨cnf, names⟩ seed) :
    unitPropagation.IsLawful ⟨cnf, names⟩ seed ∧
    ∀ (σ : Type) (propagator : Propagator σ),
      propagator.IsLawful ⟨cnf, names⟩ seed →
      ∀ state : Search.State σ, ∃ outcome later,
        (∀ bound, seed.unassigned names < bound →
          Search.solveWithin propagator bound ⟨cnf, names⟩ seed state =
            some (outcome, later)) ∧
        outcome.isSat = (dpll seed cnf names).isSat ∧
        ∀ model expected, outcome = .satisfiable model →
          dpll seed cnf names = .satisfiable expected →
          ∀ name ∈ names, model.get? name = expected.get? name := by
  have unitLawful := unitPropagation_isLawful covered
  refine ⟨unitLawful, ?_⟩
  intro σ propagator lawful state
  obtain ⟨⟨outcome, later⟩, ends⟩ := Search.exists_solveWithin_eq
    lawful.toPreservesModels state
  refine ⟨outcome, later, ends, ?_⟩
  obtain ⟨_, explored, _⟩ := Search.explores_of_solveWithin
    (ends _ (Nat.lt_succ_self _))
  obtain ⟨_, expectedExplored⟩ := Search.explores_of_dpll seed cnf names
  refine ⟨explored.isSat_eq expectedExplored lawful unitLawful, ?_⟩
  intro model expected found expectedFound
  rw [found] at explored
  rw [expectedFound] at expectedExplored
  exact explored.models_agree expectedExplored lawful unitLawful

/-- Unit propagation in every second call.  In the other calls it only looks
for a falsified clause. -/
def Propagator.alternating : Propagator Bool where
  propagate cnf valuation thorough :=
    let result :=
      if thorough then cnf.propagate valuation
      else if ∃ clause ∈ cnf.clauses, clause.status valuation = .falsified then
        .conflict
      else .consistent valuation
    { result := result, state := !thorough, events := #[] }
  propagations _ := 0

namespace Propagator

variable {cnf : Cnf} {valuation extended : Valuation}

theorem alternating_eq_consistent
    (consistent : (alternating.propagate cnf valuation false).result =
      .consistent extended) :
    extended = valuation ∧
      ∀ clause ∈ cnf.clauses, clause.status valuation ≠ .falsified := by
  simp only [alternating, Bool.false_eq_true, if_false] at consistent
  split at consistent
  · cases consistent
  · next noneFalsified =>
      cases consistent
      refine ⟨rfl, ?_⟩
      intro clause member falsified
      exact noneFalsified ⟨clause, member, falsified⟩

theorem alternating_eq_conflict
    (conflict : (alternating.propagate cnf valuation false).result =
      .conflict) :
    ∃ clause ∈ cnf.clauses, clause.status valuation = .falsified := by
  simp only [alternating, Bool.false_eq_true, if_false] at conflict
  split at conflict
  · next someFalsified => exact someFalsified
  · cases conflict

theorem alternating_preservesModels (cnf : Cnf) (seed : Valuation) :
    alternating.PreservesModels cnf seed := by
  have unit := unitPropagation_preservesModels cnf seed
  refine ⟨?_, ?_, ?_⟩
  · intro valuation state extended fromSeed consistent
    cases state with
    | true => exact unit.grows valuation 0 extended fromSeed consistent
    | false =>
        obtain ⟨rfl, _⟩ := alternating_eq_consistent consistent
        exact .refl extended
  · intro valuation state extended fromSeed consistent model grows satisfied
    cases state with
    | true =>
        exact unit.keeps valuation 0 extended fromSeed consistent model grows
          satisfied
    | false =>
        obtain ⟨rfl, _⟩ := alternating_eq_consistent consistent
        exact grows
  · intro valuation state fromSeed conflict model grows
    cases state with
    | true => exact unit.refutes valuation 0 fromSeed conflict model grows
    | false =>
        obtain ⟨clause, member, falsified⟩ := alternating_eq_conflict conflict
        rw [← Bool.not_eq_true]
        intro satisfied
        have closed := Valuation.IsClosedFor.of_isSatisfiedBy satisfied
        exact closed.not_falsified grows member falsified

theorem alternating_isLawful {problem : Problem} {seed : Valuation}
    (covered : problem.IsCovered seed) :
    alternating.IsLawful problem seed := by
  refine ⟨alternating_preservesModels problem.cnf seed, ?_⟩
  intro valuation state extended fromSeed consistent total
  cases state with
  | true =>
      have unit := unitPropagation_isLawful covered
      exact unit.completes valuation 0 extended fromSeed consistent total
  | false =>
      obtain ⟨rfl, noneFalsified⟩ := alternating_eq_consistent consistent
      rw [Cnf.isSatisfiedBy_iff]
      intro clause member
      apply Clause.isSatisfiedBy_of_not_falsified (noneFalsified clause member)
      intro name inClause
      apply covered.contains fromSeed total
      exact List.mem_flatMap.mpr ⟨clause, member, inClause⟩

end Propagator

/-- Without propagation at the root `v` is tried as true, which fails. -/
theorem lawful_search_agrees_alternating :
    ∃ model later,
      Search.solveWithin .alternating 4
        ⟨⟨[⟨[.negative "v", .positive "w"]⟩,
          ⟨[.negative "v", .negative "w"]⟩,
          ⟨[.positive "v", .positive "u"]⟩]⟩, ["v", "w", "u"]⟩ ∅
        (.start false) = some (.satisfiable model, later) ∧
      ∀ name ∈ ["v", "w", "u"], model.get? name =
        (Valuation.ofList [("v", false), ("w", true), ("u", true)]).get?
          name := by
  have covered : Problem.IsCovered
      ⟨⟨[⟨[.negative "v", .positive "w"]⟩, ⟨[.negative "v", .negative "w"]⟩,
        ⟨[.positive "v", .positive "u"]⟩]⟩, ["v", "w", "u"]⟩ ∅ := by
    unfold Problem.IsCovered
    decide +kernel
  obtain ⟨_, agrees⟩ := lawful_search_agrees _ _ _ covered
  obtain ⟨outcome, later, ends, verdict, sameValues⟩ := agrees Bool
    .alternating (Propagator.alternating_isLawful covered) (.start false)
  have expected : dpll ∅
      ⟨[⟨[.negative "v", .positive "w"]⟩, ⟨[.negative "v", .negative "w"]⟩,
        ⟨[.positive "v", .positive "u"]⟩]⟩ ["v", "w", "u"] =
      .satisfiable
        (.ofList [("v", false), ("w", true), ("u", true)]) := by
    decide +kernel
  cases outcome with
  | unsatisfiable =>
      rw [expected] at verdict
      cases verdict
  | satisfiable model =>
      exact ⟨model, later, ends 4 (by decide +kernel),
        sameValues model _ rfl expected⟩

end PropSat
