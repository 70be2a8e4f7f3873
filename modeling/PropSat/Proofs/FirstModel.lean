import PropSat.Proofs.SearchDecision

/-!
# The model that a search finds first

Valuations are compared on a list of names: at the first name where they
differ, the one that makes it true comes first.  Since `true` is tried before
`false` and propagation never drops a model, the search answers with a model
that comes before every other one.  No two models can each come before the
other, so the answer depends on the models of the clauses alone, not on how
the clauses are written down.
-/

namespace PropSat

namespace Valuation

/-- The two valuations agree on the names, or the first one is true and the
second false at the first name where they differ. -/
def Precedes : List String → Valuation → Valuation → Prop
  | [], _, _ => True
  | name :: rest, first, second =>
      (first.get? name = some true ∧ second.get? name = some false) ∨
        (first.get? name = second.get? name ∧ Precedes rest first second)

theorem precedes_of_agree {names : List String} {first second : Valuation}
    (agree : ∀ name ∈ names, first.get? name = second.get? name) :
    Precedes names first second := by
  induction names with
  | nil => trivial
  | cons name rest induction =>
      refine .inr ⟨agree name List.mem_cons_self, induction ?_⟩
      intro later member
      exact agree later (List.mem_cons_of_mem name member)

theorem precedes_append {before after : List String} {name : String}
    {first second : Valuation}
    (agree : ∀ earlier ∈ before, first.get? earlier = second.get? earlier)
    (firstTrue : first.get? name = some true)
    (secondFalse : second.get? name = some false) :
    Precedes (before ++ name :: after) first second := by
  induction before with
  | nil => exact .inl ⟨firstTrue, secondFalse⟩
  | cons earlier before induction =>
      refine .inr ⟨agree earlier List.mem_cons_self, induction ?_⟩
      intro later member
      exact agree later (List.mem_cons_of_mem earlier member)

namespace Precedes

variable {names : List String} {first second : Valuation}

theorem agree_or_first_difference (precedes : Precedes names first second) :
    (∀ name ∈ names, first.get? name = second.get? name) ∨
      ∃ before name after, names = before ++ name :: after ∧
        (∀ earlier ∈ before, first.get? earlier = second.get? earlier) ∧
          first.get? name = some true ∧ second.get? name = some false := by
  induction names with
  | nil =>
      left
      intro name member
      cases member
  | cons name rest induction =>
      rcases precedes with ⟨firstTrue, secondFalse⟩ | ⟨same, later⟩
      · right
        refine ⟨[], name, rest, rfl, ?_, firstTrue, secondFalse⟩
        intro earlier member
        cases member
      · rcases induction later with agree |
          ⟨before, other, after, rfl, agree, firstTrue, secondFalse⟩
        · left
          exact List.forall_mem_cons.mpr ⟨same, agree⟩
        · right
          exact ⟨name :: before, other, after, rfl,
            List.forall_mem_cons.mpr ⟨same, agree⟩, firstTrue, secondFalse⟩

/-- What comes after names on which there is no difference is compared next. -/
theorem of_append {before after : List String}
    (precedes : Precedes (before ++ after) first second) :
    Precedes before first second ∧
      ((∀ name ∈ before, first.get? name = second.get? name) →
        Precedes after first second) := by
  induction before with
  | nil => exact ⟨trivial, fun _ => precedes⟩
  | cons name before induction =>
      rcases precedes with ⟨firstTrue, secondFalse⟩ | ⟨same, later⟩
      · refine ⟨.inl ⟨firstTrue, secondFalse⟩, ?_⟩
        intro agree
        have same := agree name List.mem_cons_self
        rw [firstTrue, secondFalse] at same
        cases same
      · obtain ⟨inBefore, inAfter⟩ := induction later
        refine ⟨.inr ⟨same, inBefore⟩, ?_⟩
        intro agree
        exact inAfter fun other member =>
          agree other (List.mem_cons_of_mem name member)

theorem antisymm (forward : Precedes names first second)
    (backward : Precedes names second first) :
    ∀ name ∈ names, first.get? name = second.get? name := by
  induction names with
  | nil =>
      intro name member
      cases member
  | cons name rest induction =>
      rcases forward with ⟨firstTrue, secondFalse⟩ | ⟨same, restForward⟩
      · rcases backward with ⟨secondTrue, _⟩ | ⟨same, _⟩
        · rw [secondFalse] at secondTrue
          cases secondTrue
        · rw [secondFalse, firstTrue] at same
          cases same
      · rcases backward with ⟨secondTrue, firstFalse⟩ | ⟨_, restBackward⟩
        · rw [firstFalse, secondTrue] at same
          cases same
        · exact List.forall_mem_cons.mpr
            ⟨same, induction restForward restBackward⟩

end Precedes

end Valuation

namespace Search

variable {σ : Type} {propagator : Propagator σ} {problem : Problem}
  {seed valuation : Valuation} {depth : Nat} {outcome : Outcome}
  {state later : State σ}

/-- Two extensions agree on the names before the next variable. -/
theorem agree_before_nextVariable {extended first second : Valuation}
    {before : List String}
    (assigned : ∀ earlier ∈ before, extended.contains earlier = true)
    (firstGrows : first.Extends extended)
    (secondGrows : second.Extends extended) :
    ∀ earlier ∈ before, first.get? earlier = second.get? earlier := by
  intro earlier member
  rw [firstGrows.get?_eq (assigned earlier member),
    secondGrows.get?_eq (assigned earlier member)]

/-- The model found below a node comes before every other model there. -/
theorem Explores.precedes
    (explored : Explores propagator problem depth valuation state outcome
      later)
    (preserves : propagator.PreservesModels problem.cnf seed)
    (fromSeed : valuation.Extends seed) {model other : Valuation}
    (found : outcome = .satisfiable model) (grows : other.Extends valuation)
    (total : other.isTotalOver problem.names = true)
    (satisfied : problem.cnf.isSatisfiedBy other = true) :
    Valuation.Precedes problem.names model other := by
  induction explored with
  | conflict => cases found
  | @model _ valuation model _ consistent complete =>
      cases found
      have growsOn := preserves.keeps _ _ _ fromSeed consistent other grows
        satisfied
      have modelTotal := nextVariable_eq_none_iff.mp complete
      refine Valuation.precedes_of_agree ?_
      intro name member
      exact (growsOn.get?_eq
        (Valuation.isTotalOver_iff.mp modelTotal name member)).symm
  | @first _ _ extended _ _ _ name consistent isNext explored induction =>
      obtain ⟨isOpen, before, after, split, assigned⟩ :=
        nextVariable_eq_some_iff.mp isNext
      have member := (nextVariable_eq_some isNext).1
      have growsOn := preserves.keeps _ _ _ fromSeed consistent other grows
        satisfied
      have branchGrows := Valuation.extends_assign isOpen firstValue
      have branchFromSeed :=
        preserves.branch_extends fromSeed consistent isOpen firstValue
      have modelGrows := explored.grows preserves branchFromSeed found
      obtain ⟨value, given⟩ := Valuation.contains_iff_exists.mp
        (Valuation.isTotalOver_iff.mp total name member)
      cases value with
      | true =>
          exact induction branchFromSeed found (growsOn.assign_right given)
      | false =>
          rw [split]
          refine Valuation.precedes_append ?_ ?_ given
          · exact agree_before_nextVariable assigned
              (modelGrows.trans branchGrows) growsOn
          · exact modelGrows name true
              (Valuation.get?_assign_self extended name firstValue)
  | @second _ _ extended _ _ _ _ name consistent isNext failed _ _
      induction =>
      have isOpen := (nextVariable_eq_some isNext).2
      have member := (nextVariable_eq_some isNext).1
      have growsOn := preserves.keeps _ _ _ fromSeed consistent other grows
        satisfied
      have branchFromSeed :=
        preserves.branch_extends fromSeed consistent isOpen
      obtain ⟨value, given⟩ := Valuation.contains_iff_exists.mp
        (Valuation.isTotalOver_iff.mp total name member)
      have branch := growsOn.assign_right given
      cases value with
      | true =>
          have refuted := failed.no_model preserves (branchFromSeed true) rfl
            branch
          rw [satisfied] at refuted
          cases refuted
      | false => exact induction (branchFromSeed false) found branch

end Search

section FirstModel

variable {seed model other : Valuation} {cnf : Cnf} {names : List String}

theorem dpll_precedes (found : dpll seed cnf names = .satisfiable model)
    (grows : other.Extends seed) (total : other.isTotalOver names = true)
    (satisfied : cnf.isSatisfiedBy other = true) :
    Valuation.Precedes names model other := by
  obtain ⟨later, explored⟩ := Search.explores_of_dpll seed cnf names
  exact explored.precedes (unitPropagation_preservesModels cnf seed)
    (.refl seed) found grows total satisfied

/-- A model assigns the names of the seed and those to branch on. -/
theorem dpll_contains_iff (covered : Problem.IsCovered ⟨cnf, names⟩ seed)
    (found : dpll seed cnf names = .satisfiable model) (name : String) :
    model.contains name = true ↔
      seed.contains name = true ∨ name ∈ names := by
  constructor
  · intro assigned
    obtain ⟨later, explored⟩ := Search.explores_of_dpll seed cnf names
    obtain ⟨node, _, confined, closure, _⟩ := explored.exists_closure found
    have mentioned (inClauses : name ∈ cnf.names) :
        seed.contains name = true ∨ name ∈ names :=
      (covered name inClauses).symm
    rcases closure.confined name assigned with inNode | inClauses
    · rcases confined name inNode with inSeed | branched | inClauses
      · exact .inl inSeed
      · exact .inr branched
      · exact mentioned inClauses
    · exact mentioned inClauses
  · intro assigned
    rcases assigned with inSeed | branched
    · exact (dpll_extends found).covers name inSeed
    · exact Valuation.isTotalOver_iff.mp (dpll_isTotalOver found) name branched

theorem model_eq_of_same_models {otherCnf : Cnf}
    (covered : Problem.IsCovered ⟨cnf, names⟩ seed)
    (otherCovered : Problem.IsCovered ⟨otherCnf, names⟩ seed)
    (same : ∀ valuation : Valuation, valuation.Extends seed →
      valuation.isTotalOver names = true →
        (cnf.isSatisfiedBy valuation = true ↔
          otherCnf.isSatisfiedBy valuation = true))
    (found : dpll seed cnf names = .satisfiable model)
    (otherFound : dpll seed otherCnf names = .satisfiable other) :
    model = other := by
  have grows := dpll_extends found
  have otherGrows := dpll_extends otherFound
  have total := dpll_isTotalOver found
  have otherTotal := dpll_isTotalOver otherFound
  have satisfied := dpll_isSatisfiedBy covered found
  have otherSatisfied := dpll_isSatisfiedBy otherCovered otherFound
  have forward : Valuation.Precedes names model other :=
    dpll_precedes found otherGrows otherTotal
      ((same other otherGrows otherTotal).mpr otherSatisfied)
  have backward : Valuation.Precedes names other model :=
    dpll_precedes otherFound grows total ((same model grows total).mp satisfied)
  have agree := forward.antisymm backward
  ext1 name
  cases assigned : model.contains name with
  | true =>
      rcases (dpll_contains_iff covered found name).mp assigned with
        inSeed | branched
      · rw [grows.get?_eq inSeed, otherGrows.get?_eq inSeed]
      · exact agree name branched
  | false =>
      have otherOpen : other.contains name = false := by
        rw [← Bool.not_eq_true, dpll_contains_iff otherCovered otherFound,
          ← dpll_contains_iff covered found, assigned]
        decide
      rw [Valuation.contains_eq_false_iff.mp assigned,
        Valuation.contains_eq_false_iff.mp otherOpen]

/-- Clause sets with the same models get the same answer. -/
theorem dpll_eq_of_same_models {otherCnf : Cnf}
    (covered : Problem.IsCovered ⟨cnf, names⟩ seed)
    (otherCovered : Problem.IsCovered ⟨otherCnf, names⟩ seed)
    (same : ∀ valuation : Valuation, valuation.Extends seed →
      valuation.isTotalOver names = true →
        (cnf.isSatisfiedBy valuation = true ↔
          otherCnf.isSatisfiedBy valuation = true)) :
    dpll seed cnf names = dpll seed otherCnf names := by
  cases answer : dpll seed cnf names with
  | satisfiable model =>
      have grows := dpll_extends answer
      have satisfied := (same model grows (dpll_isTotalOver answer)).mp
        (dpll_isSatisfiedBy covered answer)
      cases otherAnswer : dpll seed otherCnf names with
      | satisfiable other =>
          rw [model_eq_of_same_models covered otherCovered same answer
            otherAnswer]
      | unsatisfiable =>
          rw [dpll_no_model otherAnswer grows] at satisfied
          cases satisfied
  | unsatisfiable =>
      cases otherAnswer : dpll seed otherCnf names with
      | satisfiable other =>
          have grows := dpll_extends otherAnswer
          have satisfied := (same other grows
            (dpll_isTotalOver otherAnswer)).mpr
              (dpll_isSatisfiedBy otherCovered otherAnswer)
          rw [dpll_no_model answer grows] at satisfied
          cases satisfied
      | unsatisfiable => rfl

end FirstModel

/-- The model that is found assigns exactly the names of the seed and of the
list, and at the first name where another model differs from it, that other
one is false.  So the answer depends only on which total valuations satisfy
the clauses. -/
theorem dpll_canonical (seed : Valuation) (cnf : Cnf) (names : List String)
    (covered : Problem.IsCovered ⟨cnf, names⟩ seed) :
    (∀ model, dpll seed cnf names = .satisfiable model →
      (∀ name, model.contains name = true ↔
        seed.contains name = true ∨ name ∈ names) ∧
      ∀ other : Valuation, other.Extends seed →
        other.isTotalOver names = true → cnf.isSatisfiedBy other = true →
        (∀ name ∈ names, model.get? name = other.get? name) ∨
          ∃ before name after, names = before ++ name :: after ∧
            (∀ earlier ∈ before, model.get? earlier = other.get? earlier) ∧
              model.get? name = some true ∧ other.get? name = some false) ∧
    ∀ otherCnf : Cnf, Problem.IsCovered ⟨otherCnf, names⟩ seed →
      (∀ valuation : Valuation, valuation.Extends seed →
        valuation.isTotalOver names = true →
          (cnf.isSatisfiedBy valuation = true ↔
            otherCnf.isSatisfiedBy valuation = true)) →
      dpll seed cnf names = dpll seed otherCnf names := by
  constructor
  · intro model found
    refine ⟨dpll_contains_iff covered found, ?_⟩
    intro other grows total satisfied
    exact (dpll_precedes found grows total satisfied).agree_or_first_difference
  · intro otherCnf otherCovered same
    exact dpll_eq_of_same_models covered otherCovered same

/-- The clauses have two models, of which the first one is found.  In another
order and with a repeat they get the same answer. -/
theorem dpll_canonical_reordered :
    let seed : Valuation := .ofList [("a", true)]
    let cnf : Cnf := ⟨[⟨[.negative "a", .positive "b", .positive "c"]⟩,
      ⟨[.negative "b", .negative "c"]⟩]⟩
    let model : Valuation := .ofList [("a", true), ("b", false), ("c", true)]
    let other : Valuation := .ofList [("a", true), ("b", true), ("c", false)]
    Problem.IsCovered ⟨cnf, ["c", "b"]⟩ seed ∧
    dpll seed cnf ["c", "b"] = .satisfiable model ∧
    (other.Extends seed ∧ other.isTotalOver ["c", "b"] = true ∧
      cnf.isSatisfiedBy other = true) ∧
    (∃ before name after, ["c", "b"] = before ++ name :: after ∧
      (∀ earlier ∈ before, model.get? earlier = other.get? earlier) ∧
        model.get? name = some true ∧ other.get? name = some false) ∧
    dpll seed cnf ["c", "b"] =
      dpll seed ⟨[⟨[.negative "c", .negative "b"]⟩,
        ⟨[.positive "c", .positive "b", .negative "a"]⟩,
        ⟨[.positive "c", .positive "b", .negative "a"]⟩]⟩ ["c", "b"] := by
  intro seed cnf model other
  have covered : Problem.IsCovered ⟨cnf, ["c", "b"]⟩ seed := by
    change ∀ name ∈ Cnf.names _, _
    decide +kernel
  have found : dpll seed cnf ["c", "b"] = .satisfiable model := by
    decide +kernel
  have grows : other.Extends seed :=
    (Valuation.extends_empty other).assign_right (by decide +kernel)
  have total : other.isTotalOver ["c", "b"] = true := by decide +kernel
  have satisfied : cnf.isSatisfiedBy other = true := by decide +kernel
  obtain ⟨isFirst, dependsOnModels⟩ := dpll_canonical seed cnf _ covered
  obtain ⟨_, precedes⟩ := isFirst model found
  refine ⟨covered, found, ⟨grows, total, satisfied⟩, ?_, ?_⟩
  · apply (precedes other grows total satisfied).resolve_left
    intro agree
    exact absurd (agree "c" (by simp)) (by decide +kernel)
  · apply dependsOnModels
    · change ∀ name ∈ Cnf.names _, _
      decide +kernel
    · intro valuation _ _
      simp [cnf, Cnf.isSatisfiedBy, Clause.isSatisfiedBy, or_comm, or_assoc,
        and_comm]

end PropSat
