import PropSat.Proofs.ClauseMeaning
import PropSat.Proofs.ExactlyOne

/-!
# The clauses of the counting constraints

Over literals the constraints have the clauses that one would write by hand.
The negated conjunction of a pair becomes one clause of the two opposite
literals, and the disjunction of all members is a product with one choice from
each, hence a single clause.
-/

namespace PropSat

def Literal.formula (literal : Literal) : Formula :=
  if literal.polarity then .atom literal.name
  else .neg (.atom literal.name)

theorem Literal.polarityClauses_formula (literal : Literal)
    (positive : Bool) :
    literal.formula.polarityClauses positive =
      .unit (if positive then literal else literal.negated) := by
  obtain ⟨name, polarity⟩ := literal
  cases polarity <;> cases positive <;> rfl

theorem Cnf.disjoin_map_unit (literals : List Literal) :
    disjoin (literals.map unit) = ⟨[⟨literals⟩]⟩ := by
  have oneChoice (literals : List Literal) :
      choices ((literals.map unit).map clauses) = [⟨literals⟩] := by
    induction literals with
    | nil => rfl
    | cons first rest ih =>
        simp only [List.map_cons, choices, ih]
        rfl
  rw [← oneChoice, ← clauses_disjoin]

namespace Cardinality

def exclusion (pair : Literal × Literal) : Clause :=
  ⟨[pair.1.negated, pair.2.negated]⟩

theorem pairs_map {α β : Type} (change : α → β) (members : List α) :
    pairs (members.map change) =
      (pairs members).map fun pair => (change pair.1, change pair.2) := by
  induction members with
  | nil => rfl
  | cons first rest ih =>
      simp only [List.map_cons, pairs, ih, List.map_append, List.map_map]
      rfl

theorem polarityClauses_exclusion (pair : Literal × Literal) :
    (Formula.neg (.conj [pair.1.formula, pair.2.formula])).polarityClauses
      true = ⟨[exclusion pair]⟩ := by
  rw [Formula.polarityClauses, Formula.polarityClauses_conj]
  simp only [List.map_cons, List.map_nil, Literal.polarityClauses_formula]
  exact Cnf.disjoin_map_unit [pair.1.negated, pair.2.negated]

/-- One clause for each pair, in the order of the pairs. -/
theorem clauses_atMostOne (literals : List Literal) :
    (atMostOne (literals.map Literal.formula)).clauses =
      ⟨(pairs literals).map exclusion⟩ := by
  rw [Formula.clauses_eq_polarityClauses, atMostOne, pairs_map,
    Formula.polarityClauses_conj]
  simp only [List.map_map, Function.comp_def, polarityClauses_exclusion]
  rw [if_pos trivial, Cnf.conjoin, List.flatMap_map, List.map_eq_flatMap]

theorem clauses_atLeastOne (literals : List Literal) :
    (atLeastOne (literals.map Literal.formula)).clauses = ⟨[⟨literals⟩]⟩ := by
  rw [Formula.clauses_eq_polarityClauses, atLeastOne,
    Formula.polarityClauses_disj]
  simp only [List.map_map, Function.comp_def,
    Literal.polarityClauses_formula]
  exact Cnf.disjoin_map_unit literals

theorem clauses_exactlyOne (literals : List Literal) :
    (exactlyOne (literals.map Literal.formula)).clauses =
      ⟨(pairs literals).map exclusion ++ [⟨literals⟩]⟩ := by
  rw [Formula.clauses_eq_polarityClauses, exactlyOne,
    Formula.polarityClauses_conj]
  simp only [List.map_cons, List.map_nil, ← Formula.clauses_eq_polarityClauses,
    clauses_atMostOne, clauses_atLeastOne]
  simp [Cnf.conjoin]

end Cardinality

end PropSat
