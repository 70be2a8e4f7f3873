import Mathlib.Data.Fintype.Option
import PropSat.Proofs.PartialEvaluation

/-!
# Three-valued truth values

The three values form a chain, with unknown between false and true, in which
conjunction and disjunction are minimum and maximum.  `Kleene.all` and
`Kleene.any` are the two for any number of operands, and the value of a
formula with an operand list is one of these.

Evaluation from left to right is weaker: where it succeeds it gives this
value, and it succeeds on every valuation that assigns all atoms.
-/

namespace PropSat

namespace Kleene

def all (values : List (Option Bool)) : Option Bool :=
  values.foldr Kleene.and (some true)

def any (values : List (Option Bool)) : Option Bool :=
  values.foldr Kleene.or (some false)

@[simp]
theorem all_nil : all [] = some true := rfl

@[simp]
theorem all_cons (value : Option Bool) (rest : List (Option Bool)) :
    all (value :: rest) = Kleene.and value (all rest) := rfl

@[simp]
theorem any_nil : any [] = some false := rfl

@[simp]
theorem any_cons (value : Option Bool) (rest : List (Option Bool)) :
    any (value :: rest) = Kleene.or value (any rest) := rfl

theorem and_eq_some_true_iff {left right : Option Bool} :
    Kleene.and left right = some true ↔
      left = some true ∧ right = some true := by
  revert left right
  decide

theorem and_eq_some_false_iff {left right : Option Bool} :
    Kleene.and left right = some false ↔
      left = some false ∨ right = some false := by
  revert left right
  decide

theorem or_eq_some_true_iff {left right : Option Bool} :
    Kleene.or left right = some true ↔
      left = some true ∨ right = some true := by
  revert left right
  decide

theorem or_eq_some_false_iff {left right : Option Bool} :
    Kleene.or left right = some false ↔
      left = some false ∧ right = some false := by
  revert left right
  decide

theorem not_eq_some_iff {operand : Option Bool} {value : Bool} :
    Kleene.not operand = some value ↔ operand = some !value := by
  revert operand value
  decide

theorem not_not (operand : Option Bool) :
    Kleene.not (Kleene.not operand) = operand := by
  revert operand
  decide

theorem and_assoc (first second third : Option Bool) :
    Kleene.and (Kleene.and first second) third =
      Kleene.and first (Kleene.and second third) := by
  revert first second third
  decide

theorem or_assoc (first second third : Option Bool) :
    Kleene.or (Kleene.or first second) third =
      Kleene.or first (Kleene.or second third) := by
  revert first second third
  decide

theorem or_and_left (first second third : Option Bool) :
    Kleene.or first (Kleene.and second third) =
      Kleene.and (Kleene.or first second) (Kleene.or first third) := by
  revert first second third
  decide

theorem or_and_right (first second third : Option Bool) :
    Kleene.or (Kleene.and first second) third =
      Kleene.and (Kleene.or first third) (Kleene.or second third) := by
  revert first second third
  decide

theorem true_and (operand : Option Bool) :
    Kleene.and (some true) operand = operand := by
  revert operand
  decide

theorem and_true (operand : Option Bool) :
    Kleene.and operand (some true) = operand := by
  revert operand
  decide

theorem false_or (operand : Option Bool) :
    Kleene.or (some false) operand = operand := by
  revert operand
  decide

theorem or_false (operand : Option Bool) :
    Kleene.or operand (some false) = operand := by
  revert operand
  decide

theorem or_true (operand : Option Bool) :
    Kleene.or operand (some true) = some true := by
  revert operand
  decide

theorem not_and (left right : Option Bool) :
    Kleene.not (Kleene.and left right) =
      Kleene.or (Kleene.not left) (Kleene.not right) := by
  revert left right
  decide

theorem not_or (left right : Option Bool) :
    Kleene.not (Kleene.or left right) =
      Kleene.and (Kleene.not left) (Kleene.not right) := by
  revert left right
  decide

theorem all_append (first second : List (Option Bool)) :
    all (first ++ second) = Kleene.and (all first) (all second) := by
  induction first with
  | nil => exact (true_and _).symm
  | cons value rest induction =>
      rw [List.cons_append, all_cons, all_cons, induction, and_assoc]

theorem any_append (first second : List (Option Bool)) :
    any (first ++ second) = Kleene.or (any first) (any second) := by
  induction first with
  | nil => exact (false_or _).symm
  | cons value rest induction =>
      rw [List.cons_append, any_cons, any_cons, induction, or_assoc]

theorem not_all (values : List (Option Bool)) :
    Kleene.not (all values) = any (values.map Kleene.not) := by
  induction values with
  | nil => rfl
  | cons value rest induction =>
      rw [all_cons, not_and, induction, List.map_cons, any_cons]

theorem not_any (values : List (Option Bool)) :
    Kleene.not (any values) = all (values.map Kleene.not) := by
  induction values with
  | nil => rfl
  | cons value rest induction =>
      rw [any_cons, not_or, induction, List.map_cons, all_cons]

theorem all_eq_some_true_iff {values : List (Option Bool)} :
    all values = some true ↔ ∀ value ∈ values, value = some true := by
  induction values with
  | nil => simp
  | cons value rest induction =>
      rw [all_cons, and_eq_some_true_iff, List.forall_mem_cons, induction]

theorem all_eq_some_false_iff {values : List (Option Bool)} :
    all values = some false ↔ some false ∈ values := by
  induction values with
  | nil => simp
  | cons value rest induction =>
      rw [all_cons, and_eq_some_false_iff, List.mem_cons, induction, eq_comm]

theorem any_eq_some_true_iff {values : List (Option Bool)} :
    any values = some true ↔ some true ∈ values := by
  induction values with
  | nil => simp
  | cons value rest induction =>
      rw [any_cons, or_eq_some_true_iff, List.mem_cons, induction, eq_comm]

theorem any_eq_some_false_iff {values : List (Option Bool)} :
    any values = some false ↔ ∀ value ∈ values, value = some false := by
  induction values with
  | nil => simp
  | cons value rest induction =>
      rw [any_cons, or_eq_some_false_iff, List.forall_mem_cons, induction]

end Kleene

namespace Formula

variable {valuation : Valuation}

theorem kleeneAll?_eq_all (operands : List Formula) :
    kleeneAll? valuation operands =
      Kleene.all (operands.map (kleene? valuation)) := by
  induction operands with
  | nil => rfl
  | cons operand rest induction =>
      rw [kleeneAll?, induction, List.map_cons, Kleene.all_cons]

theorem kleeneAny?_eq_any (operands : List Formula) :
    kleeneAny? valuation operands =
      Kleene.any (operands.map (kleene? valuation)) := by
  induction operands with
  | nil => rfl
  | cons operand rest induction =>
      rw [kleeneAny?, induction, List.map_cons, Kleene.any_cons]

theorem kleene?_conj_eq_some_true_iff {operands : List Formula} :
    (conj operands).kleene? valuation = some true ↔
      ∀ operand ∈ operands, operand.kleene? valuation = some true := by
  rw [kleene?, kleeneAll?_eq_all, Kleene.all_eq_some_true_iff,
    List.forall_mem_map]

theorem kleene?_conj_eq_some_false_iff {operands : List Formula} :
    (conj operands).kleene? valuation = some false ↔
      ∃ operand ∈ operands, operand.kleene? valuation = some false := by
  rw [kleene?, kleeneAll?_eq_all, Kleene.all_eq_some_false_iff, List.mem_map]

theorem kleene?_disj_eq_some_true_iff {operands : List Formula} :
    (disj operands).kleene? valuation = some true ↔
      ∃ operand ∈ operands, operand.kleene? valuation = some true := by
  rw [kleene?, kleeneAny?_eq_any, Kleene.any_eq_some_true_iff, List.mem_map]

theorem kleene?_neg_eq_some_iff {operand : Formula} {value : Bool} :
    (neg operand).kleene? valuation = some value ↔
      operand.kleene? valuation = some !value := by
  rw [kleene?, Kleene.not_eq_some_iff]

mutual

/-- A value found from left to right is the three-valued one. -/
theorem kleene?_of_evaluate (formula : Formula) {value : Bool}
    (found : formula.evaluate valuation = .ok value) :
    formula.kleene? valuation = some value := by
  cases formula with
  | const given =>
      simp only [evaluate, Except.ok.injEq] at found
      rw [kleene?, found]
  | atom name =>
      simp only [evaluate] at found
      split at found
      · next given assigned =>
          cases found
          exact assigned
      · cases found
  | neg operand =>
      simp only [evaluate] at found
      split at found
      · next given operandFound =>
          cases found
          rw [kleene?, kleene?_of_evaluate operand operandFound]
          rfl
      · cases found
  | conj operands => exact kleeneAll?_of_evaluateAll operands found
  | disj operands => exact kleeneAny?_of_evaluateAny operands found

theorem kleeneAll?_of_evaluateAll (operands : List Formula) {value : Bool}
    (found : evaluateAll valuation operands = .ok value) :
    kleeneAll? valuation operands = some value := by
  cases operands with
  | nil =>
      cases found
      rfl
  | cons operand rest =>
      simp only [evaluateAll] at found
      split at found
      · next holds =>
          rw [kleeneAll?, kleene?_of_evaluate operand holds,
            kleeneAll?_of_evaluateAll rest found, Kleene.true_and]
      · next fails =>
          cases found
          rw [kleeneAll?, kleene?_of_evaluate operand fails]
          rfl
      · cases found

theorem kleeneAny?_of_evaluateAny (operands : List Formula) {value : Bool}
    (found : evaluateAny valuation operands = .ok value) :
    kleeneAny? valuation operands = some value := by
  cases operands with
  | nil =>
      cases found
      rfl
  | cons operand rest =>
      simp only [evaluateAny] at found
      split at found
      · next holds =>
          cases found
          rw [kleeneAny?, kleene?_of_evaluate operand holds]
          rfl
      · next fails =>
          rw [kleeneAny?, kleene?_of_evaluate operand fails,
            kleeneAny?_of_evaluateAny rest found, Kleene.false_or]
      · cases found

end

/-- On a valuation that assigns every atom, evaluation gives the three-valued
value. -/
theorem evaluate_eq_ok_iff_of_total {formula : Formula} {value : Bool}
    (total : valuation.isTotalOver formula.vars.toList = true) :
    formula.evaluate valuation = .ok value ↔
      formula.kleene? valuation = some value := by
  constructor
  · exact kleene?_of_evaluate formula
  · intro meaning
    obtain ⟨given, found⟩ := exists_evaluate_of_isTotalOver total
    rw [kleene?_of_evaluate formula found, Option.some.injEq] at meaning
    rw [found, meaning]

end Formula

end PropSat
