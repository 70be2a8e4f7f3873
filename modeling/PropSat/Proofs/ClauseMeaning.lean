import PropSat.Formula.ClauseForm
import PropSat.Proofs.KleeneLogic

/-!
# What the clause form of a formula means

A clause set has a three-valued value of its own: the conjunction, over its
clauses, of the disjunction of their literals.  Picking one clause from each
set is the distributive law, so the clause form of a disjunction has the value
of the disjunction, whatever number of sets and clauses there are, and that
also where some variables are unassigned.

The induction is on the tree, through the translation that carries the
polarity along; pushing negations inwards one level at a time gives the same
clauses.
-/

namespace PropSat

namespace Clause

def value? (clause : Clause) (valuation : Valuation) : Option Bool :=
  Kleene.any (clause.literals.map (·.value? valuation))

theorem value?_append (first second : Clause) (valuation : Valuation) :
    (first ++ second).value? valuation =
      Kleene.or (first.value? valuation) (second.value? valuation) := by
  change Kleene.any ((first.literals ++ second.literals).map _) = _
  rw [List.map_append, Kleene.any_append]
  rfl

theorem value?_eq_some_true_iff {clause : Clause} {valuation : Valuation} :
    clause.value? valuation = some true ↔
      clause.isSatisfiedBy valuation = true := by
  rw [value?, Kleene.any_eq_some_true_iff, List.mem_map, isSatisfiedBy_iff]

theorem value?_eq_some_false_iff {clause : Clause} {valuation : Valuation} :
    clause.value? valuation = some false ↔
      ∀ literal ∈ clause.literals, literal.value? valuation = some false := by
  rw [value?, Kleene.any_eq_some_false_iff, List.forall_mem_map]

end Clause

namespace Cnf

def value? (cnf : Cnf) (valuation : Valuation) : Option Bool :=
  Kleene.all (cnf.clauses.map (·.value? valuation))

theorem value?_eq_some_true_iff {cnf : Cnf} {valuation : Valuation} :
    cnf.value? valuation = some true ↔ cnf.isSatisfiedBy valuation = true := by
  rw [value?, Kleene.all_eq_some_true_iff, List.forall_mem_map,
    isSatisfiedBy_iff]
  constructor
  · intro allTrue clause member
    exact Clause.value?_eq_some_true_iff.mp (allTrue clause member)
  · intro allSatisfied clause member
    exact Clause.value?_eq_some_true_iff.mpr (allSatisfied clause member)

theorem value?_eq_some_false_iff {cnf : Cnf} {valuation : Valuation} :
    cnf.value? valuation = some false ↔
      ∃ clause ∈ cnf.clauses, ∀ literal ∈ clause.literals,
        literal.value? valuation = some false := by
  rw [value?, Kleene.all_eq_some_false_iff, List.mem_map]
  constructor
  · rintro ⟨clause, member, isFalse⟩
    exact ⟨clause, member, Clause.value?_eq_some_false_iff.mp isFalse⟩
  · rintro ⟨clause, member, literalsFalse⟩
    exact ⟨clause, member, Clause.value?_eq_some_false_iff.mpr literalsFalse⟩

theorem value?_unit (literal : Literal) (valuation : Valuation) :
    (unit literal).value? valuation = literal.value? valuation := by
  change Kleene.and (Kleene.or (literal.value? valuation) (some false))
    (some true) = _
  rw [Kleene.or_false, Kleene.and_true]

theorem value?_conjoin (sets : List Cnf) (valuation : Valuation) :
    (conjoin sets).value? valuation =
      Kleene.all (sets.map (·.value? valuation)) := by
  unfold value? conjoin
  induction sets with
  | nil => rfl
  | cons set rest induction =>
      rw [List.flatMap_cons, List.map_append, Kleene.all_append, induction,
        List.map_cons, Kleene.all_cons]

/-- A clause before each of a list of clauses is a disjunct of all of them. -/
theorem all_value?_map_append (first : Clause) (tails : List Clause)
    (valuation : Valuation) :
    Kleene.all ((tails.map (first ++ ·)).map (·.value? valuation)) =
      Kleene.or (first.value? valuation)
        (Kleene.all (tails.map (·.value? valuation))) := by
  induction tails with
  | nil => exact (Kleene.or_true _).symm
  | cons tail rest induction =>
      simp only [List.map_cons, Kleene.all_cons]
      rw [induction, Clause.value?_append, ← Kleene.or_and_left]

theorem all_value?_flatMap_append (options tails : List Clause)
    (valuation : Valuation) :
    Kleene.all ((options.flatMap fun first =>
        tails.map (first ++ ·)).map (·.value? valuation)) =
      Kleene.or (Kleene.all (options.map (·.value? valuation)))
        (Kleene.all (tails.map (·.value? valuation))) := by
  induction options with
  | nil => rfl
  | cons first rest induction =>
      rw [List.flatMap_cons, List.map_append, Kleene.all_append, induction,
        all_value?_map_append, ← Kleene.or_and_right, List.map_cons,
        Kleene.all_cons]

/-- Picking a clause from every list distributes disjunction over
conjunction. -/
theorem all_value?_choices (lists : List (List Clause))
    (valuation : Valuation) :
    Kleene.all ((choices lists).map (·.value? valuation)) =
      Kleene.any (lists.map fun options =>
        Kleene.all (options.map (·.value? valuation))) := by
  induction lists with
  | nil => rfl
  | cons options rest induction =>
      rw [choices, all_value?_flatMap_append, induction, List.map_cons,
        Kleene.any_cons]

theorem value?_disjoin (sets : List Cnf) (valuation : Valuation) :
    (disjoin sets).value? valuation =
      Kleene.any (sets.map (·.value? valuation)) := by
  rw [value?, clauses_disjoin, all_value?_choices, List.map_map]
  rfl

end Cnf

namespace Formula

theorem polarityClausesList_eq_map (positive : Bool)
    (operands : List Formula) :
    polarityClausesList positive operands =
      operands.map (polarityClauses positive) := by
  induction operands with
  | nil => rfl
  | cons operand rest induction =>
      rw [polarityClausesList, induction, List.map_cons]

theorem polarityClauses_conj (positive : Bool) (operands : List Formula) :
    (conj operands).polarityClauses positive =
      if positive then .conjoin (operands.map (polarityClauses positive))
      else .disjoin (operands.map (polarityClauses positive)) := by
  rw [polarityClauses, polarityClausesList_eq_map]

theorem polarityClauses_disj (positive : Bool) (operands : List Formula) :
    (disj operands).polarityClauses positive =
      if positive then .disjoin (operands.map (polarityClauses positive))
      else .conjoin (operands.map (polarityClauses positive)) := by
  rw [polarityClauses, polarityClausesList_eq_map]

/-- A negation above the operands is the same as the other polarity. -/
theorem map_polarityClauses_neg (positive : Bool) (operands : List Formula) :
    (operands.map neg).map (polarityClauses positive) =
      operands.map (polarityClauses !positive) := by
  rw [List.map_map]
  refine List.map_congr_left ?_
  intro operand _
  rw [Function.comp_apply, polarityClauses]

theorem polarityClauses_pushNegation (positive : Bool) (operand : Formula) :
    operand.pushNegation.polarityClauses positive =
      operand.polarityClauses !positive := by
  cases operand with
  | const value => cases value <;> cases positive <;> rfl
  | atom name => rfl
  | neg inner => rw [pushNegation, polarityClauses, Bool.not_not]
  | conj operands =>
      rw [pushNegation, polarityClauses_disj, polarityClauses_conj,
        map_polarityClauses_neg]
      cases positive <;> rfl
  | disj operands =>
      rw [pushNegation, polarityClauses_conj, polarityClauses_disj,
        map_polarityClauses_neg]
      cases positive <;> rfl

theorem map_clauses_eq {operands : List Formula}
    (same : ∀ operand ∈ operands,
      operand.clauses = operand.polarityClauses true) :
    (operands.attach.map fun ⟨operand, _⟩ => operand.clauses) =
      operands.map (polarityClauses true) := by
  calc
    _ = operands.attach.map fun operand =>
          operand.val.polarityClauses true :=
      List.map_congr_left fun ⟨operand, member⟩ _ => same operand member
    _ = operands.map (polarityClauses true) :=
      List.attach_map_val

/-- Pushing negations inwards step by step leads to the clauses that one pass
reads off. -/
theorem clauses_eq_polarityClauses (formula : Formula) :
    formula.clauses = formula.polarityClauses true := by
  fun_induction clauses formula with
  | case1 => rfl
  | case2 => rfl
  | case3 name => rfl
  | case4 operand name isAtom =>
      cases operand with
      | atom given =>
          cases isAtom
          rfl
      | const => cases isAtom
      | neg => cases isAtom
      | conj => cases isAtom
      | disj => cases isAtom
  | case5 operand compound induction =>
      rw [induction, polarityClauses_pushNegation, polarityClauses]
  | case6 operands induction =>
      rw [map_clauses_eq induction, polarityClauses_conj, if_pos rfl]
  | case7 operands induction =>
      rw [map_clauses_eq induction, polarityClauses_disj, if_pos rfl]

def polarityValue (positive : Bool) (value : Option Bool) : Option Bool :=
  if positive then value else Kleene.not value

mutual

theorem value?_polarityClauses (positive : Bool) (formula : Formula)
    (valuation : Valuation) :
    (formula.polarityClauses positive).value? valuation =
      polarityValue positive (formula.kleene? valuation) := by
  cases formula with
  | const value => cases value <;> cases positive <;> rfl
  | atom name =>
      rw [polarityClauses, Cnf.value?_unit, kleene?, Literal.value?]
      cases assigned : valuation.get? name with
      | none => cases positive <;> rfl
      | some value => cases value <;> cases positive <;> rfl
  | neg operand =>
      rw [polarityClauses, value?_polarityClauses (!positive) operand,
        kleene?]
      cases positive with
      | true => rfl
      | false => exact (Kleene.not_not _).symm
  | conj operands =>
      have values := map_value?_polarityClauses positive operands valuation
      rw [polarityClauses_conj, kleene?, kleeneAll?_eq_all]
      cases positive with
      | true =>
          rw [if_pos rfl, Cnf.value?_conjoin, values]
          rfl
      | false =>
          rw [if_neg Bool.false_ne_true, Cnf.value?_disjoin, values]
          change _ = Kleene.not _
          rw [Kleene.not_all, List.map_map]
          rfl
  | disj operands =>
      have values := map_value?_polarityClauses positive operands valuation
      rw [polarityClauses_disj, kleene?, kleeneAny?_eq_any]
      cases positive with
      | true =>
          rw [if_pos rfl, Cnf.value?_disjoin, values]
          rfl
      | false =>
          rw [if_neg Bool.false_ne_true, Cnf.value?_conjoin, values]
          change _ = Kleene.not _
          rw [Kleene.not_any, List.map_map]
          rfl

theorem map_value?_polarityClauses (positive : Bool)
    (operands : List Formula) (valuation : Valuation) :
    (operands.map (polarityClauses positive)).map (·.value? valuation) =
      operands.map fun operand =>
        polarityValue positive (operand.kleene? valuation) := by
  cases operands with
  | nil => rfl
  | cons operand rest =>
      rw [List.map_cons, List.map_cons, List.map_cons,
        value?_polarityClauses positive operand,
        map_value?_polarityClauses positive rest]

end

/-- The clause form has the value of the formula, known or not. -/
theorem value?_clauses (formula : Formula) (valuation : Valuation) :
    formula.clauses.value? valuation = formula.kleene? valuation := by
  rw [clauses_eq_polarityClauses, value?_polarityClauses]
  rfl

theorem isSatisfiedBy_clauses_iff {formula : Formula}
    {valuation : Valuation} :
    formula.clauses.isSatisfiedBy valuation = true ↔
      formula.kleene? valuation = some true := by
  rw [← Cnf.value?_eq_some_true_iff, value?_clauses]

theorem exists_falsified_clauses_iff {formula : Formula}
    {valuation : Valuation} :
    (∃ clause ∈ formula.clauses.clauses, ∀ literal ∈ clause.literals,
        literal.value? valuation = some false) ↔
      formula.kleene? valuation = some false := by
  rw [← Cnf.value?_eq_some_false_iff, value?_clauses]

/-- Where every atom has a value, evaluation says whether the clause form is
satisfied. -/
theorem evaluate_eq_isSatisfiedBy {formula : Formula} {valuation : Valuation}
    (total : valuation.isTotalOver formula.vars.toList = true) :
    formula.evaluate valuation =
      .ok (formula.clauses.isSatisfiedBy valuation) := by
  obtain ⟨value, found⟩ := exists_evaluate_of_isTotalOver total
  rw [found]
  congr 1
  rw [Bool.eq_iff_iff, isSatisfiedBy_clauses_iff,
    kleene?_of_evaluate formula found, Option.some.injEq]

theorem isSatisfiedBy_of_evaluate {formula : Formula} {valuation : Valuation}
    (holds : formula.evaluate valuation = .ok true) :
    formula.clauses.isSatisfiedBy valuation = true :=
  isSatisfiedBy_clauses_iff.mpr (kleene?_of_evaluate formula holds)

/-- The clause form is satisfied exactly where the formula is true in
three-valued logic, and has a false clause exactly where it is false.  An
evaluation that succeeds finds this value, and it succeeds on every total
valuation. -/
theorem clauses_meaning (formula : Formula) (valuation : Valuation) :
    (formula.clauses.isSatisfiedBy valuation = true ↔
      formula.kleene? valuation = some true) ∧
    ((∃ clause ∈ formula.clauses.clauses, ∀ literal ∈ clause.literals,
        literal.value? valuation = some false) ↔
      formula.kleene? valuation = some false) ∧
    (∀ value, formula.evaluate valuation = .ok value →
      formula.kleene? valuation = some value) ∧
    (valuation.isTotalOver formula.vars.toList = true →
      formula.evaluate valuation =
        .ok (formula.clauses.isSatisfiedBy valuation)) := by
  refine ⟨isSatisfiedBy_clauses_iff, exists_falsified_clauses_iff, ?_,
    evaluate_eq_isSatisfiedBy⟩
  intro value found
  exact kleene?_of_evaluate formula found

end Formula

end PropSat
