import Mathlib.Data.List.FinRange
import Mathlib.Data.Nat.Choose.Basic
import PropSat.Proofs.CountingClauses

/-!
# Counting constraints count positions

Over any formulas the constraints compare a number with one, the number of
positions of the member list that hold a true formula; a member that is listed
twice and true counts twice.  No two positions of a list have a property
together exactly when at most one of them has it, which turns the pairs of
`atMostOne` into a count.

Over literals the pairs are those of an earlier and a later position, listed
by the earlier one first, and there are as many as there are numbers below a
triangle.
-/

namespace PropSat

/-- Two positions with the property are one too many. -/
theorem countP_le_one_iff {α : Type} {holds : α → Bool} {members : List α} :
    members.countP holds ≤ 1 ↔
      members.Pairwise fun first second =>
        holds first = false ∨ holds second = false := by
  induction members with
  | nil => simp
  | cons first rest ih =>
      rw [List.pairwise_cons, List.countP_cons, ← ih]
      by_cases isTrue : holds first = true
      · have restFalse : rest.countP holds = 0 ↔
            ∀ other ∈ rest, holds other = false := by simp
        simp only [isTrue, if_true, Bool.true_eq_false, false_or, ← restFalse]
        omega
      · simp [isTrue]

theorem Formula.evaluate_eq_ok_decide {formula : Formula}
    {valuation : Valuation} {holds : Prop} [Decidable holds]
    (total : valuation.isTotalOver formula.vars.toList = true)
    (means : formula.kleene? valuation = some true ↔ holds) :
    formula.evaluate valuation = .ok (decide holds) := by
  obtain ⟨value, found⟩ := exists_evaluate_of_isTotalOver total
  rw [kleene?_of_evaluate formula found, Option.some.injEq] at means
  rw [found, Except.ok.injEq, Bool.eq_iff_iff, decide_eq_true_iff]
  exact means

theorem Formula.isSatisfiedBy_clauses_eq_decide {formula : Formula}
    {valuation : Valuation} {holds : Prop} [Decidable holds]
    (means : formula.kleene? valuation = some true ↔ holds) :
    formula.clauses.isSatisfiedBy valuation = decide holds := by
  rw [Bool.eq_iff_iff, isSatisfiedBy_clauses_iff, decide_eq_true_iff]
  exact means

namespace Cardinality

/-- How many positions of a list hold a formula that evaluates to true. -/
def trueMembers (members : List Formula) (valuation : Valuation) : Nat :=
  members.countP fun member =>
    decide (member.evaluate valuation = .ok true)

section Meaning

variable {members : List Formula} {valuation : Valuation}

theorem kleene?_atLeastOne_iff_count
    (total : ∀ member ∈ members,
      valuation.isTotalOver member.vars.toList = true) :
    (atLeastOne members).kleene? valuation = some true ↔
      1 ≤ trueMembers members valuation := by
  rw [atLeastOne, Formula.kleene?_disj_eq_some_true_iff, trueMembers,
    List.one_le_countP_iff]
  refine exists_congr fun member => and_congr_right fun isMember => ?_
  rw [decide_eq_true_iff,
    Formula.evaluate_eq_ok_iff_of_total (total member isMember)]

/-- On a total valuation a member that is not true is false. -/
theorem kleene?_atMostOne_iff_count
    (total : ∀ member ∈ members,
      valuation.isTotalOver member.vars.toList = true) :
    (atMostOne members).kleene? valuation = some true ↔
      trueMembers members valuation ≤ 1 := by
  have isFalse : ∀ member ∈ members,
      member.kleene? valuation = some false ↔
        decide (member.evaluate valuation = .ok true) = false := by
    intro member isMember
    obtain ⟨value, found⟩ :=
      Formula.exists_evaluate_of_isTotalOver (total member isMember)
    rw [Formula.kleene?_of_evaluate member found, found]
    cases value <;> simp
  rw [kleene?_atMostOne_iff, trueMembers, countP_le_one_iff]
  apply List.Pairwise.iff_of_mem
  intro first second inFirst inSecond
  rw [isFalse first inFirst, isFalse second inSecond]

theorem kleene?_exactlyOne_iff_count
    (total : ∀ member ∈ members,
      valuation.isTotalOver member.vars.toList = true) :
    (exactlyOne members).kleene? valuation = some true ↔
      trueMembers members valuation = 1 := by
  rw [exactlyOne, Formula.kleene?_conj_eq_some_true_iff, List.forall_mem_cons,
    List.forall_mem_singleton, kleene?_atMostOne_iff_count total,
    kleene?_atLeastOne_iff_count total]
  omega

theorem isTotalOver_constraints
    (total : ∀ member ∈ members,
      valuation.isTotalOver member.vars.toList = true) :
    ∀ constraint ∈ [atLeastOne members, atMostOne members,
        exactlyOne members],
      valuation.isTotalOver constraint.vars.toList = true := by
  have inMembers : ∀ name ∈ (exactlyOne members).atoms,
      valuation.contains name = true := by
    intro name occurs
    obtain ⟨member, isMember, inMember⟩ := mem_atoms_exactlyOne_iff.mp occurs
    exact Valuation.isTotalOver_iff.mp (total member isMember) name
      (Formula.mem_vars_iff.mpr inMember)
  have inPart : ∀ part ∈ [atMostOne members, atLeastOne members],
      valuation.isTotalOver part.vars.toList = true := by
    intro part isPart
    apply Valuation.isTotalOver_iff.mpr
    intro name occurs
    apply inMembers name
    exact Formula.mem_atoms_conj_iff.mpr
      ⟨part, isPart, Formula.mem_vars_iff.mp occurs⟩
  intro constraint isConstraint
  simp only [List.mem_cons, List.not_mem_nil, or_false] at isConstraint
  rcases isConstraint with rfl | rfl | rfl
  · exact inPart _ (by simp)
  · exact inPart _ (by simp)
  · apply Valuation.isTotalOver_iff.mpr
    intro name occurs
    exact inMembers name (Formula.mem_vars_iff.mp occurs)

end Meaning

theorem pairs_ofFn {α : Type} {count : Nat} (member : Fin count → α) :
    pairs (List.ofFn member) =
      (List.finRange count).flatMap fun first =>
        ((List.finRange count).filter (first < ·)).map fun second =>
          (member first, member second) := by
  induction count with
  | zero => rfl
  | succ count ih =>
      have afterFirst : (List.finRange (count + 1)).filter (0 < ·) =
          (List.finRange count).map Fin.succ := by
        simp [List.finRange_succ, List.filter_map, Function.comp_def]
      have afterLater (first : Fin count) :
          (List.finRange (count + 1)).filter (first.succ < ·) =
            ((List.finRange count).filter (first < ·)).map Fin.succ := by
        simp [List.finRange_succ, List.filter_map, Function.comp_def]
      rw [List.ofFn_succ, pairs, ih, List.finRange_succ, List.flatMap_cons,
        List.flatMap_map, ← List.finRange_succ, afterFirst]
      simp only [afterLater, List.map_map, List.ofFn_eq_map]
      rfl

/-- The pairs are those of two positions in increasing order, by the first
position and then by the second one. -/
theorem pairs_eq_flatMap {α : Type} (members : List α) :
    pairs members =
      (List.finRange members.length).flatMap fun first =>
        ((List.finRange members.length).filter (first < ·)).map fun second =>
          (members.get first, members.get second) := by
  have listed := pairs_ofFn members.get
  rw [List.ofFn_get] at listed
  exact listed

theorem length_pairs {α : Type} (members : List α) :
    (pairs members).length = members.length * (members.length - 1) / 2 := by
  induction members with
  | nil => simp [pairs]
  | cons member rest ih =>
      rw [pairs, List.length_append, List.length_map, ih, List.length_cons,
        Nat.triangle_succ, Nat.add_comm]

/-- On a valuation that assigns all atoms of the members, the constraints say
that the true members are at least, at most or exactly one, and so do their
clauses.  For literals the clauses are one for each pair of positions, of the
two opposite literals, and one of all members. -/
theorem constraints_count_true_members (members : List Formula) :
    (∀ valuation : Valuation,
      (∀ member ∈ members,
        valuation.isTotalOver member.vars.toList = true) →
      let count := trueMembers members valuation
      (atLeastOne members).evaluate valuation = .ok (decide (1 ≤ count)) ∧
      (atMostOne members).evaluate valuation = .ok (decide (count ≤ 1)) ∧
      (exactlyOne members).evaluate valuation = .ok (decide (count = 1)) ∧
      (atLeastOne members).clauses.isSatisfiedBy valuation =
        decide (1 ≤ count) ∧
      (atMostOne members).clauses.isSatisfiedBy valuation =
        decide (count ≤ 1) ∧
      (exactlyOne members).clauses.isSatisfiedBy valuation =
        decide (count = 1)) ∧
    ∀ literals : List Literal, members = literals.map Literal.formula →
      let exclusions :=
        (List.finRange literals.length).flatMap fun first =>
          ((List.finRange literals.length).filter (first < ·)).map
            fun second =>
              Clause.mk [(literals.get first).negated,
                (literals.get second).negated]
      (atMostOne members).clauses = ⟨exclusions⟩ ∧
      exclusions.length = members.length * (members.length - 1) / 2 ∧
      (exactlyOne members).clauses = ⟨exclusions ++ [⟨literals⟩]⟩ := by
  constructor
  · intro valuation total
    have constraintsTotal := isTotalOver_constraints total
    simp only [List.forall_mem_cons, List.not_mem_nil, false_imp_iff,
      implies_true, and_true] at constraintsTotal
    obtain ⟨leastTotal, mostTotal, exactlyTotal⟩ := constraintsTotal
    have least := kleene?_atLeastOne_iff_count total
    have most := kleene?_atMostOne_iff_count total
    have exactly := kleene?_exactlyOne_iff_count total
    exact ⟨Formula.evaluate_eq_ok_decide leastTotal least,
      Formula.evaluate_eq_ok_decide mostTotal most,
      Formula.evaluate_eq_ok_decide exactlyTotal exactly,
      Formula.isSatisfiedBy_clauses_eq_decide least,
      Formula.isSatisfiedBy_clauses_eq_decide most,
      Formula.isSatisfiedBy_clauses_eq_decide exactly⟩
  · rintro literals rfl
    have listed := congrArg (List.map exclusion) (pairs_eq_flatMap literals)
    simp only [List.map_flatMap, List.map_map, Function.comp_def, exclusion]
      at listed
    dsimp only
    rw [← listed, List.length_map, List.length_map, length_pairs]
    exact ⟨clauses_atMostOne literals, rfl, clauses_exactlyOne literals⟩

/-- A true member that is listed twice is counted twice. -/
example : (exactlyOne [.atom "x", .atom "x"]).evaluate
    (.ofList [("x", true)]) = .ok false := by
  cbv

end Cardinality

end PropSat
