import Mathlib.Data.List.Nodup
import PropSat.Cardinality
import PropSat.Proofs.KleeneLogic

/-!
# What the counting constraints mean

In three-valued logic `exactlyOne` is true only if one member is true and all
others are false, so no member can be unknown.  For members that are given by
distinct indices the constraint singles out one index.
-/

namespace PropSat.Cardinality

theorem forall_mem_pairs_iff {α : Type} {members : List α}
    {related : α → α → Prop} :
    (∀ pair ∈ pairs members, related pair.1 pair.2) ↔
      members.Pairwise related := by
  induction members with
  | nil => simp [pairs]
  | cons first rest induction =>
      rw [pairs, List.forall_mem_append, induction, List.forall_mem_map,
        List.pairwise_cons]

theorem mem_of_mem_pairs {α : Type} {members : List α} {pair : α × α}
    (member : pair ∈ pairs members) :
    pair.1 ∈ members ∧ pair.2 ∈ members := by
  induction members with
  | nil => cases member
  | cons first rest induction =>
      rcases List.mem_append.mp member with withFirst | later
      · obtain ⟨second, inRest, rfl⟩ := List.mem_map.mp withFirst
        exact ⟨List.mem_cons_self, List.mem_cons_of_mem first inRest⟩
      · obtain ⟨left, right⟩ := induction later
        exact ⟨List.mem_cons_of_mem first left,
          List.mem_cons_of_mem first right⟩

variable {valuation : Valuation} {members : List Formula}

theorem kleene?_atMostOne_iff :
    (atMostOne members).kleene? valuation = some true ↔
      members.Pairwise fun first second =>
        first.kleene? valuation = some false ∨
          second.kleene? valuation = some false := by
  rw [atMostOne, Formula.kleene?_conj_eq_some_true_iff, List.forall_mem_map,
    ← forall_mem_pairs_iff]
  refine forall_congr' fun pair => imp_congr_right fun _ => ?_
  rw [Formula.kleene?_neg_eq_some_iff, Bool.not_true,
    Formula.kleene?_conj_eq_some_false_iff]
  simp

theorem kleene?_exactlyOne_iff :
    (exactlyOne members).kleene? valuation = some true ↔
      (members.Pairwise fun first second =>
        first.kleene? valuation = some false ∨
          second.kleene? valuation = some false) ∧
      ∃ member ∈ members, member.kleene? valuation = some true := by
  rw [exactlyOne, Formula.kleene?_conj_eq_some_true_iff, List.forall_mem_cons,
    List.forall_mem_singleton, kleene?_atMostOne_iff, atLeastOne,
    Formula.kleene?_disj_eq_some_true_iff]

/-- Of members with distinct indices the constraint chooses one, which is
true while every other one is false. -/
theorem kleene?_exactlyOne_map_iff {ι : Type} [DecidableEq ι]
    {indices : List ι} (distinct : indices.Nodup) (member : ι → Formula) :
    (exactlyOne (indices.map member)).kleene? valuation = some true ↔
      ∃ chosen ∈ indices, ∀ index ∈ indices,
        (member index).kleene? valuation =
          some (decide (index = chosen)) := by
  rw [kleene?_exactlyOne_iff, List.pairwise_map]
  constructor
  · rintro ⟨pairwise, _, inMembers, isTrue⟩
    obtain ⟨chosen, inIndices, rfl⟩ := List.mem_map.mp inMembers
    have symmetric : Std.Symm fun first second =>
        (member first).kleene? valuation = some false ∨
          (member second).kleene? valuation = some false :=
      ⟨fun _ _ => Or.symm⟩
    refine ⟨chosen, inIndices, ?_⟩
    intro index inList
    by_cases same : index = chosen
    · rw [same, isTrue, decide_eq_true rfl]
    · rw [decide_eq_false same]
      rcases pairwise.forall inList inIndices same with isFalse | chosenFalse
      · exact isFalse
      · rw [isTrue] at chosenFalse
        cases chosenFalse
  · rintro ⟨chosen, inIndices, values⟩
    constructor
    · refine distinct.pairwise_of_forall_ne ?_
      intro first inFirst second inSecond different
      rw [values first inFirst, values second inSecond]
      by_cases same : first = chosen
      · right
        rw [decide_eq_false]
        rw [← same]
        exact different.symm
      · left
        rw [decide_eq_false same]
    · refine ⟨member chosen, List.mem_map_of_mem inIndices, ?_⟩
      rw [values chosen inIndices, decide_eq_true rfl]

theorem mem_atoms_exactlyOne_iff {name : String} :
    name ∈ (exactlyOne members).atoms ↔
      ∃ member ∈ members, name ∈ member.atoms := by
  constructor
  · intro occurs
    obtain ⟨constraint, inConstraints, occurs⟩ :=
      Formula.mem_atoms_conj_iff.mp occurs
    rcases List.mem_pair.mp inConstraints with rfl | rfl
    · obtain ⟨_, inPairs, occurs⟩ := Formula.mem_atoms_conj_iff.mp occurs
      obtain ⟨pair, isPair, rfl⟩ := List.mem_map.mp inPairs
      obtain ⟨inFirst, inSecond⟩ := mem_of_mem_pairs isPair
      rw [Formula.atoms] at occurs
      obtain ⟨member, inPair, occurs⟩ := Formula.mem_atoms_conj_iff.mp occurs
      rcases List.mem_pair.mp inPair with rfl | rfl
      · exact ⟨pair.1, inFirst, occurs⟩
      · exact ⟨pair.2, inSecond, occurs⟩
    · exact Formula.mem_atoms_disj_iff.mp occurs
  · intro occurs
    refine Formula.mem_atoms_conj_iff.mpr ⟨atLeastOne members, by simp, ?_⟩
    exact Formula.mem_atoms_disj_iff.mpr occurs

end PropSat.Cardinality
