import PropSat.Families
import PropSat.Proofs.Arrangement
import PropSat.Proofs.ClauseAtoms
import PropSat.Proofs.FirstOccurrences
import PropSat.Proofs.SearchDecision
import PropSat.Proofs.Sudoku.Encoding

/-!
# Candidates for branching

A list of candidates covers a formula when every atom is among them.  The
atoms in order, the names of a puzzle and the pool of a random formula cover
the formulas that they are used for.  However covering candidates are
arranged, every variable of the clause form is branched on.
-/

namespace PropSat

/-- Every variable of the formula is a candidate. -/
def Formula.IsCoveredBy (formula : Formula) (candidates : List String) :
    Prop :=
  ∀ name ∈ formula.vars.toList, name ∈ candidates

namespace Generator

variable {α σ : Type} {draw : σ → α × σ} {Holds : α → Prop}

theorem forall_mem_drawOnto (holds : ∀ source, Holds (draw source).1)
    (count : Nat) {drawn : List α} (source : σ)
    (before : ∀ value ∈ drawn, Holds value) :
    ∀ value ∈ (drawOnto draw count drawn source).1, Holds value := by
  induction count generalizing drawn source with
  | zero => exact before
  | succ count induction =>
      apply induction
      exact List.forall_mem_cons.mpr ⟨holds source, before⟩

/-- What holds of every draw holds of all that are made. -/
theorem forall_mem_drawMany (holds : ∀ source, Holds (draw source).1)
    (count : Nat) (source : σ) :
    ∀ value ∈ (drawMany draw count source).1, Holds value := by
  have start : ∀ value ∈ ([] : List α), Holds value := by simp
  simpa [drawMany] using forall_mem_drawOnto holds count source start

end Generator

namespace Families

variable {σ : Type} [Generator σ] {pool : List String}
  {filled : 0 < pool.toArray.size} {source later : σ} {formula : Formula}
  {name : String}

theorem mem_pool_of_mem_randomLiteral
    (member : name ∈ (randomLiteral pool.toArray filled source).1.atoms) :
    name ∈ pool := by
  rw [randomLiteral] at member
  have drawn : name = pool.toArray[(Generator.below filled source).1] := by
    split at member <;> simpa [Formula.atoms] using member
  rw [drawn]
  exact List.mem_toArray.mp (Array.getElem_mem _)

theorem mem_pool_of_mem_randomClause {width : Nat}
    (member : name ∈ (randomClause pool.toArray filled width source).1.atoms) :
    name ∈ pool := by
  have fromPool : ∀ literal ∈
      (Generator.drawMany (randomLiteral pool.toArray filled) width source).1,
        ∀ name ∈ literal.atoms, name ∈ pool := by
    apply Generator.forall_mem_drawMany
    intro source name member
    exact mem_pool_of_mem_randomLiteral member
  obtain ⟨literal, isLiteral, inLiteral⟩ :=
    Formula.mem_atoms_disj_iff.mp member
  exact fromPool literal isLiteral name inLiteral

theorem mem_pool_of_mem_randomClauses {count width : Nat}
    (drawn : randomClauses source pool count width = .ok (formula, later))
    (member : name ∈ formula.atoms) : name ∈ pool := by
  unfold randomClauses at drawn
  dsimp only at drawn
  split at drawn
  · next filled =>
      have fromPool : ∀ clause ∈
          (Generator.drawMany (randomClause pool.toArray filled width) count
            source).1,
            ∀ name ∈ clause.atoms, name ∈ pool := by
        apply Generator.forall_mem_drawMany
        intro source name member
        exact mem_pool_of_mem_randomClause member
      cases drawn
      obtain ⟨clause, isClause, inClause⟩ :=
        Formula.mem_atoms_conj_iff.mp member
      exact fromPool clause isClause name inClause
  · split at drawn
    · cases drawn
    · split at drawn
      · cases drawn
      · cases drawn
        obtain ⟨clause, isClause, inClause⟩ :=
          Formula.mem_atoms_conj_iff.mp member
        rw [List.eq_of_mem_replicate isClause] at inClause
        simp [Formula.atoms, Formula.atomsList] at inClause

end Families

theorem VariableOrder.isTotalOver_arrange_iff {order : VariableOrder}
    {names : List String} {valuation : Valuation} :
    valuation.isTotalOver (order.arrange names) = true ↔
      valuation.isTotalOver names = true := by
  simp only [Valuation.isTotalOver_iff, mem_arrange_iff]

namespace Formula

variable {formula : Formula} {candidates : List String}

theorem isCoveredBy_iff :
    formula.IsCoveredBy candidates ↔
      ∀ name ∈ formula.atoms, name ∈ candidates := by
  simp only [IsCoveredBy, mem_vars_iff]

theorem isCoveredBy_varsInOrder (formula : Formula) :
    formula.IsCoveredBy formula.varsInOrder := by
  rw [isCoveredBy_iff]
  intro name member
  have first := Names.distinct_firstOccurrences formula.atoms
  exact (first.mem_iff name).mpr member

theorem isCoveredBy_pool {σ : Type} [Generator σ] {source later : σ}
    {count width : Nat}
    (drawn : Families.randomClauses source candidates count width =
      .ok (formula, later)) :
    formula.IsCoveredBy candidates := by
  rw [isCoveredBy_iff]
  intro name member
  exact Families.mem_pool_of_mem_randomClauses drawn member

theorem isCoveredBy_names (puzzle : Sudoku.Puzzle) :
    puzzle.toFormula.IsCoveredBy puzzle.names := by
  rw [isCoveredBy_iff]
  intro name member
  exact Sudoku.Puzzle.mem_names_of_mem_atoms member

/-- Arranged candidates cover the problem of the clause form. -/
theorem IsCoveredBy.isCovered (covered : formula.IsCoveredBy candidates)
    (order : VariableOrder) (seed : Valuation) :
    Problem.IsCovered ⟨formula.clauses, order.arrange candidates⟩ seed := by
  intro name member
  left
  rw [VariableOrder.mem_arrange_iff]
  exact isCoveredBy_iff.mp covered name (mem_atoms_of_mem_clauses member)

theorem IsCoveredBy.isTotalOver_vars (covered : formula.IsCoveredBy candidates)
    {order : VariableOrder} {valuation : Valuation}
    (total : valuation.isTotalOver (order.arrange candidates) = true) :
    valuation.isTotalOver formula.vars.toList = true := by
  rw [VariableOrder.isTotalOver_arrange_iff] at total
  rw [Valuation.isTotalOver_iff] at total ⊢
  intro name member
  exact total name (covered name member)

end Formula

end PropSat
