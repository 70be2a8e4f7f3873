import PropSat.Proofs.SearchTree
import PropSat.Proofs.UnitPropagation

/-!
# The search decides satisfiability

A propagator preserves the models of a clause set when it never drops one
without saying that there is none.  Under such a propagator a failed search
leaves no model behind: propagation keeps every model, and the two values
tried at a branching point are all that a model can give the variable, or else
the variable can be added to it.

Unit propagation preserves models, and it finds a model only where its result
is closed, so that `dpll` is sound and complete.
-/

namespace PropSat

/-- On valuations that extend the seed, the propagator only adds assignments
that every model makes, and reports a conflict only where there is no
model. -/
structure Propagator.PreservesModels {σ : Type} (propagator : Propagator σ)
    (cnf : Cnf) (seed : Valuation) : Prop where
  grows : ∀ (valuation : Valuation) (state : σ) (extended : Valuation),
    valuation.Extends seed →
    (propagator.propagate cnf valuation state).result =
      .consistent extended →
    extended.Extends valuation
  keeps : ∀ (valuation : Valuation) (state : σ) (extended : Valuation),
    valuation.Extends seed →
    (propagator.propagate cnf valuation state).result =
      .consistent extended →
    ∀ model : Valuation, model.Extends valuation →
      cnf.isSatisfiedBy model = true → model.Extends extended
  refutes : ∀ (valuation : Valuation) (state : σ), valuation.Extends seed →
    (propagator.propagate cnf valuation state).result = .conflict →
    ∀ model : Valuation, model.Extends valuation →
      cnf.isSatisfiedBy model = false

/-- Below a consistent node every branch extends the seed as well. -/
theorem Propagator.PreservesModels.branch_extends {σ : Type}
    {propagator : Propagator σ} {cnf : Cnf}
    {seed valuation extended : Valuation} {state : σ} {name : String}
    (preserves : propagator.PreservesModels cnf seed)
    (fromSeed : valuation.Extends seed)
    (consistent : (propagator.propagate cnf valuation state).result =
      .consistent extended)
    (isOpen : extended.contains name = false) (value : Bool) :
    (extended.assign name value).2.Extends seed := by
  have grows := preserves.grows valuation state extended fromSeed consistent
  exact (Valuation.extends_assign isOpen value).trans (grows.trans fromSeed)

theorem unitPropagation_preservesModels (cnf : Cnf) (seed : Valuation) :
    unitPropagation.PreservesModels cnf seed where
  grows _ _ _ _ consistent :=
    (UnitPropagation.run_isClosureOf consistent).grows
  keeps _ _ _ _ consistent model grows satisfied :=
    (UnitPropagation.run_isClosureOf consistent).least model grows
      (.of_isSatisfiedBy satisfied)
  refutes _ _ _ conflict model grows := by
    have notClosed := UnitPropagation.not_closed_of_run_conflict conflict grows
    rw [← Bool.not_eq_true]
    intro satisfied
    exact notClosed (.of_isSatisfiedBy satisfied)

/-- Every variable of the clauses is one to branch on, or has a value from the
beginning. -/
def Problem.IsCovered (problem : Problem) (seed : Valuation) : Prop :=
  ∀ name ∈ problem.cnf.names,
    name ∈ problem.names ∨ seed.contains name = true

/-- A valuation that assigns the names of the problem assigns all variables of
the clauses, if it extends the seed. -/
theorem Problem.IsCovered.contains {problem : Problem}
    {seed valuation : Valuation} (covered : problem.IsCovered seed)
    (grows : valuation.Extends seed)
    (total : valuation.isTotalOver problem.names = true) :
    ∀ name ∈ problem.cnf.names, valuation.contains name = true := by
  intro name mentioned
  rcases covered name mentioned with branched | assigned
  · exact Valuation.isTotalOver_iff.mp total name branched
  · exact grows.covers name assigned

namespace Search

namespace Explores

variable {σ : Type} {propagator : Propagator σ} {problem : Problem}
  {seed valuation : Valuation} {depth : Nat} {outcome : Outcome}
  {state later : State σ}

theorem grows
    (explored : Explores propagator problem depth valuation state outcome
      later)
    (preserves : propagator.PreservesModels problem.cnf seed)
    (fromSeed : valuation.Extends seed) {model : Valuation}
    (found : outcome = .satisfiable model) : model.Extends valuation := by
  obtain ⟨node, current, grows, consistent, _⟩ := explored.exists_last_node
    found (fun node => node.Extends valuation)
    (by
      intro node current extended grows consistent
      exact (preserves.grows node _ extended (grows.trans fromSeed)
        consistent).trans grows)
    (by
      intro node name value grows _ isOpen
      exact (Valuation.extends_assign isOpen value).trans grows)
    (.refl valuation)
  exact (preserves.grows node _ model (grows.trans fromSeed)
    consistent).trans grows

theorem no_model
    (explored : Explores propagator problem depth valuation state outcome
      later)
    (preserves : propagator.PreservesModels problem.cnf seed)
    (fromSeed : valuation.Extends seed) (failed : outcome = .unsatisfiable)
    {model : Valuation} (grows : model.Extends valuation) :
    problem.cnf.isSatisfiedBy model = false := by
  induction explored generalizing model with
  | conflict conflict =>
      exact preserves.refutes _ _ fromSeed conflict model grows
  | model => cases failed
  | first => cases failed
  | @second _ _ extended _ _ _ _ name consistent isNext _ _ firstInduction
      secondInduction =>
      rw [← Bool.not_eq_true]
      intro satisfied
      have isOpen := (nextVariable_eq_some isNext).2
      have growsOn := preserves.keeps _ _ _ fromSeed consistent model grows
        satisfied
      have branchFromSeed :=
        preserves.branch_extends fromSeed consistent isOpen
      cases given : model.get? name with
      | none =>
          have modelOpen := Valuation.contains_eq_false_iff.mpr given
          have larger := Valuation.extends_assign modelOpen firstValue
          have refuted := firstInduction (branchFromSeed firstValue) rfl
            ((larger.trans growsOn).assign_right
              (Valuation.get?_assign_self model name firstValue))
          rw [Cnf.isSatisfiedBy_of_extends larger satisfied] at refuted
          cases refuted
      | some value =>
          have branchGrows := growsOn.assign_right given
          by_cases isFirst : value = firstValue
          · subst isFirst
            rw [firstInduction (branchFromSeed firstValue) rfl branchGrows]
              at satisfied
            cases satisfied
          · have isSecond : value = !firstValue := by
              cases value <;> simp_all [firstValue]
            subst isSecond
            rw [secondInduction (branchFromSeed _) failed branchGrows]
              at satisfied
            cases satisfied

/-- The last propagation before a model was unit propagation from a valuation
that extends the start, and the model is what it found there. -/
theorem exists_closure {state later : State Nat}
    (explored : Explores unitPropagation problem depth valuation state outcome
      later) {model : Valuation} (found : outcome = .satisfiable model) :
    ∃ node, node.Extends valuation ∧
      (∀ name, node.contains name = true → valuation.contains name = true ∨
        name ∈ problem.names ∨ name ∈ problem.cnf.names) ∧
      model.IsClosureOf problem.cnf.clauses node ∧
      model.isTotalOver problem.names = true := by
  obtain ⟨node, current, ⟨grows, confined⟩, consistent, total⟩ :=
    explored.exists_last_node found
      (fun node => node.Extends valuation ∧
        ∀ name, node.contains name = true → valuation.contains name = true ∨
          name ∈ problem.names ∨ name ∈ problem.cnf.names)
      (by
        rintro node current extended ⟨grows, confined⟩ consistent
        have closure := UnitPropagation.run_isClosureOf consistent
        refine ⟨closure.grows.trans grows, ?_⟩
        intro name assigned
        rcases closure.confined name assigned with before | inClauses
        · exact confined name before
        · exact .inr (.inr inClauses))
      (by
        rintro node name value ⟨grows, confined⟩ member isOpen
        refine ⟨(Valuation.extends_assign isOpen value).trans grows, ?_⟩
        intro other assigned
        by_cases same : name = other
        · subst same
          exact .inr (.inl member)
        · rw [Valuation.contains_eq_isSome, Valuation.get?_assign_of_ne same,
            ← Valuation.contains_eq_isSome] at assigned
          exact confined other assigned)
      ⟨.refl valuation, fun name assigned => .inl assigned⟩
  exact ⟨node, grows, confined, UnitPropagation.run_isClosureOf consistent,
    total⟩

end Explores

/-- A decision is an exploration with unit propagation from the root. -/
theorem explores_of_dpll (seed : Valuation) (cnf : Cnf)
    (names : List String) :
    ∃ later, Explores unitPropagation ⟨cnf, names⟩ 0 seed (.start 0)
      (dpll seed cnf names) later := by
  obtain ⟨later, explored, _⟩ := explores_of_solveFrom
    unitPropagation_isMonotone ⟨cnf, names⟩ seed (.start 0)
  exact ⟨later, explored⟩

end Search

section Decision

variable {seed model : Valuation} {cnf : Cnf} {names : List String}

theorem dpll_extends (found : dpll seed cnf names = .satisfiable model) :
    model.Extends seed := by
  obtain ⟨later, explored⟩ := Search.explores_of_dpll seed cnf names
  exact explored.grows (unitPropagation_preservesModels cnf seed) (.refl seed)
    found

theorem dpll_isTotalOver (found : dpll seed cnf names = .satisfiable model) :
    model.isTotalOver names = true := by
  obtain ⟨later, explored⟩ := Search.explores_of_dpll seed cnf names
  obtain ⟨_, _, _, _, total⟩ := explored.exists_closure found
  exact total

/-- On a model that assigns every variable of the clauses a closed valuation
has nothing left to be undetermined. -/
theorem dpll_isSatisfiedBy (covered : Problem.IsCovered ⟨cnf, names⟩ seed)
    (found : dpll seed cnf names = .satisfiable model) :
    cnf.isSatisfiedBy model = true := by
  have grows := dpll_extends found
  obtain ⟨later, explored⟩ := Search.explores_of_dpll seed cnf names
  obtain ⟨_, _, _, closure, total⟩ := explored.exists_closure found
  exact closure.closed.isSatisfiedBy (covered.contains grows total)

theorem dpll_no_model (failed : dpll seed cnf names = .unsatisfiable)
    (grows : model.Extends seed) : cnf.isSatisfiedBy model = false := by
  obtain ⟨later, explored⟩ := Search.explores_of_dpll seed cnf names
  exact explored.no_model (unitPropagation_preservesModels cnf seed)
    (.refl seed) failed grows

theorem dpll_isSat_iff (covered : Problem.IsCovered ⟨cnf, names⟩ seed) :
    (dpll seed cnf names).isSat = true ↔
      ∃ model : Valuation, model.Extends seed ∧
        cnf.isSatisfiedBy model = true := by
  constructor
  · intro isSat
    cases answer : dpll seed cnf names with
    | satisfiable model =>
        exact ⟨model, dpll_extends answer, dpll_isSatisfiedBy covered answer⟩
    | unsatisfiable =>
        rw [answer] at isSat
        cases isSat
  · rintro ⟨model, grows, satisfied⟩
    cases answer : dpll seed cnf names with
    | satisfiable found => rfl
    | unsatisfiable =>
        rw [dpll_no_model answer grows] at satisfied
        cases satisfied

end Decision

/-- The search ends within every bound above the number of open places.  A
model that it answers with extends the seed, assigns all names, and satisfies
the clauses if their variables are covered; where it finds none, there is
none. -/
theorem dpll_decides (seed : Valuation) (cnf : Cnf) (names : List String) :
    (∀ bound, seed.unassigned names < bound →
      ∃ later, Search.solveWithin unitPropagation bound ⟨cnf, names⟩ seed
        (.start 0) = some (dpll seed cnf names, later)) ∧
    (∀ model, dpll seed cnf names = .satisfiable model →
      model.Extends seed ∧ model.isTotalOver names = true ∧
        (Problem.IsCovered ⟨cnf, names⟩ seed →
          cnf.isSatisfiedBy model = true)) ∧
    (dpll seed cnf names = .unsatisfiable →
      ∀ model : Valuation, model.Extends seed →
        cnf.isSatisfiedBy model = false) ∧
    (Problem.IsCovered ⟨cnf, names⟩ seed →
      ((dpll seed cnf names).isSat = true ↔
        ∃ model : Valuation, model.Extends seed ∧
          cnf.isSatisfiedBy model = true)) := by
  refine ⟨?_, ?_, ?_, dpll_isSat_iff⟩
  · intro bound enough
    exact ⟨_, Search.solveWithin_eq_solveFrom unitPropagation_isMonotone enough
      (.start 0)⟩
  · intro model found
    exact ⟨dpll_extends found, dpll_isTotalOver found,
      fun covered => dpll_isSatisfiedBy covered found⟩
  · intro failed model grows
    exact dpll_no_model failed grows

end PropSat
