import PropSat.Proofs.Candidates

/-!
# Random formulas one after another

The formulas of a series are drawn from one source, each from where the one
before has left it.  The source determines the series, as far as it goes: a
shorter series is the start of a longer one.
-/

namespace PropSat

namespace Families

/-- The formulas are drawn one after another, each from where the one before
it has left the source. -/
inductive Draws {σ : Type} [Generator σ] (pool : List String)
    (count width : Nat) : σ → List Formula → Prop where
  | none (source : σ) : Draws pool count width source []
  | next {source later : σ} {formula : Formula}
      {formulas : List Formula} :
      randomClauses source pool count width = .ok (formula, later) →
      Draws pool count width later formulas →
      Draws pool count width source (formula :: formulas)

variable {σ : Type} [Generator σ] {pool : List String} {count width : Nat}
  {source : σ} {formulas others : List Formula}

theorem Draws.isCoveredBy (draws : Draws pool count width source formulas) :
    ∀ formula ∈ formulas, formula.IsCoveredBy pool := by
  induction draws with
  | none source => simp
  | next drawn _ induction =>
      exact List.forall_mem_cons.mpr
        ⟨Formula.isCoveredBy_pool drawn, induction⟩

theorem Draws.take (draws : Draws pool count width source formulas)
    (fewer : Nat) : Draws pool count width source (formulas.take fewer) := by
  induction draws generalizing fewer with
  | none source => simpa using Draws.none source
  | @next source _ _ _ drawn _ induction =>
      cases fewer with
      | zero => exact .none source
      | succ fewer => exact .next drawn (induction fewer)

/-- Two sequences of one length that are drawn from one source are equal. -/
theorem Draws.unique (draws : Draws pool count width source formulas)
    (otherDraws : Draws pool count width source others)
    (sameLength : formulas.length = others.length) : formulas = others := by
  induction draws generalizing others with
  | none source =>
      exact (List.length_eq_zero_iff.mp sameLength.symm).symm
  | next drawn _ induction =>
      cases otherDraws with
      | none => cases sameLength
      | next otherDrawn otherRest =>
          rw [drawn] at otherDrawn
          cases otherDrawn
          rw [induction otherRest (Nat.succ.inj sameLength)]

theorem exists_randomClauses_eq_ok
    (drawable : 0 < pool.length ∨ count = 0 ∨ width = 0)
    (source : σ) :
    ∃ formula later,
      randomClauses source pool count width = .ok (formula, later) := by
  unfold randomClauses
  dsimp only
  split
  · exact ⟨_, _, rfl⟩
  · next notFilled =>
      have nothingWanted : count = 0 ∨ width = 0 :=
        drawable.resolve_left (by simpa using notFilled)
      rcases nothingWanted with rfl | rfl <;> simp [literalsWanted]

theorem exists_draws (drawable : 0 < pool.length ∨ count = 0 ∨ width = 0)
    (trials : Nat) (source : σ) :
    ∃ formulas, formulas.length = trials ∧
      Draws pool count width source formulas := by
  induction trials generalizing source with
  | zero => exact ⟨[], rfl, .none source⟩
  | succ trials induction =>
      obtain ⟨formula, later, drawn⟩ :=
        exists_randomClauses_eq_ok drawable source
      obtain ⟨formulas, length, draws⟩ := induction later
      exact ⟨formula :: formulas, by rw [List.length_cons, length],
        .next drawn draws⟩

end Families

end PropSat
