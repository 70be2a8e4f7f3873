import PropSat.Proofs.TruthTableRows

/-!
# Three ways to decide a formula

The table of a formula, the table of its clause form and the search over the
clause form give the same verdict.  The first evaluates the tree and never
sees a clause.  The second may have fewer variables, since the clause form
drops some, and the third may have more, since it branches on all candidates.
What they have in common is whether the formula is satisfiable.
-/

namespace PropSat

namespace TruthTable

variable {table : TruthTable} {formula : Formula} {cnf : Cnf}
  {names candidates : List String}

/-- The search gives a value to every variable of the clauses, so where it
finds a model there is a row. -/
theorem isSat_eq_of_ofCnf (covered : Problem.IsCovered ⟨cnf, names⟩ ∅)
    (made : ofCnf cnf = .ok table) :
    table.solve.1.isSat = (dpll ∅ cnf names).isSat := by
  rw [Bool.eq_iff_iff, isSat_solve_iff_of_ofCnf made]
  constructor
  · rintro ⟨valuation, _, satisfied⟩
    rw [dpll_isSat_iff covered]
    exact ⟨valuation, valuation.extends_empty, satisfied⟩
  · intro isSat
    cases answer : dpll ∅ cnf names with
    | unsatisfiable => simp [answer, Outcome.isSat] at isSat
    | satisfiable model =>
        refine ⟨model, ?_, dpll_isSatisfiedBy covered answer⟩
        rw [Valuation.isTotalOver_iff]
        intro name member
        exact covered.contains model.extends_empty (dpll_isTotalOver answer)
          name (Cnf.mem_vars_iff.mp member)

theorem isSat_eq_of_ofFormula (covered : formula.IsCoveredBy candidates)
    (order : VariableOrder) (made : ofFormula formula = .ok table) :
    table.solve.1.isSat =
      (dpll ∅ formula.clauses (order.arrange candidates)).isSat := by
  rw [Bool.eq_iff_iff, isSat_solve_iff_of_ofFormula made,
    covered.isSat_dpll_iff order]

end TruthTable

theorem Formula.size_vars_clauses_le (formula : Formula) :
    formula.clauses.vars.size ≤ formula.vars.size := by
  rw [← Std.ExtTreeSet.length_toList (t := formula.vars)]
  apply NameSet.size_le_length
  intro name member
  rw [mem_vars_iff]
  exact mem_atoms_of_mem_clauses (Cnf.mem_vars_iff.mp member)

/-- Up to the limit both tables of a formula are made, and agree with the
search over any names that cover the formula.  Above it the table of the
formula is refused with the number of its variables.  The table of the clause
form is refused exactly when the clauses themselves have too many. -/
theorem decision_procedures_agree (formula : Formula) :
    (formula.vars.size ≤ TruthTable.maxVariables →
      ∃ direct clausal, TruthTable.ofFormula formula = .ok direct ∧
        TruthTable.ofCnf formula.clauses = .ok clausal ∧
        ∀ names, formula.IsCoveredBy names →
          direct.solve.1.isSat = (dpll ∅ formula.clauses names).isSat ∧
          clausal.solve.1.isSat = (dpll ∅ formula.clauses names).isSat) ∧
    (TruthTable.maxVariables < formula.vars.size →
      TruthTable.ofFormula formula = .error ⟨formula.vars.size⟩) ∧
    (∀ refusal, TruthTable.ofCnf formula.clauses = .error refusal ↔
      TruthTable.maxVariables < formula.clauses.vars.size ∧
        refusal = ⟨formula.clauses.vars.size⟩) := by
  refine ⟨?_, ?_, ?_⟩
  · intro small
    have direct : TruthTable.ofFormula formula = .ok _ :=
      TruthTable.ofTarget_eq_ok small
    have clausal : TruthTable.ofCnf formula.clauses = .ok _ :=
      TruthTable.ofTarget_eq_ok (formula.size_vars_clauses_le.trans small)
    refine ⟨_, _, direct, clausal, ?_⟩
    intro names covered
    have problemCovered := covered.isCovered .given ∅
    exact ⟨TruthTable.isSat_eq_of_ofFormula covered .given direct,
      TruthTable.isSat_eq_of_ofCnf problemCovered clausal⟩
  · intro large
    exact TruthTable.ofTarget_eq_error_iff.mpr ⟨large, rfl⟩
  · intro refusal
    exact TruthTable.ofTarget_eq_error_iff

/-- The clause form has lost the variable `a`, and the search branches on one
more. -/
theorem decision_procedures_agree_dropped :
    ∃ direct clausal,
      TruthTable.ofFormula (.conj [.disj [.atom "a", .const true],
        .neg (.atom "b")]) = .ok direct ∧
      TruthTable.ofCnf ⟨[⟨[.negative "b"]⟩]⟩ = .ok clausal ∧
      (dpll ∅ ⟨[⟨[.negative "b"]⟩]⟩ ["b", "c", "a"]).isSat = true ∧
      direct.solve.1.isSat = true ∧ clausal.solve.1.isSat = true := by
  have small : (Formula.conj [.disj [.atom "a", .const true],
      .neg (.atom "b")]).vars.size ≤ TruthTable.maxVariables := by
    decide +kernel
  have covered : (Formula.conj [.disj [.atom "a", .const true],
      .neg (.atom "b")]).IsCoveredBy ["b", "c", "a"] := by
    unfold Formula.IsCoveredBy
    decide +kernel
  have form : (Formula.conj [.disj [.atom "a", .const true],
      .neg (.atom "b")]).clauses = ⟨[⟨[.negative "b"]⟩]⟩ := by
    rw [Formula.clauses_eq_polarityClauses]
    rfl
  have isSat : (dpll ∅ ⟨[⟨[.negative "b"]⟩]⟩ ["b", "c", "a"]).isSat =
      true := by
    decide +kernel
  obtain ⟨direct, clausal, made, clausalMade, agree⟩ :=
    (decision_procedures_agree _).1 small
  obtain ⟨directAgrees, clausalAgrees⟩ := agree _ covered
  rw [form] at clausalMade directAgrees clausalAgrees
  rw [isSat] at directAgrees clausalAgrees
  exact ⟨direct, clausal, made, clausalMade, isSat, directAgrees,
    clausalAgrees⟩

end PropSat
