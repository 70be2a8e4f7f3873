import PropSat.Proofs.CommandLine.RandomTrials

/-!
# Random formulas without a variable

A pool without names is refused when literals are asked for, and their number
is a product of 64 bits.  The product of two positive numbers is zero there
exactly when it is a multiple of 2^64.  Then nothing is refused, and the first
literal is drawn from an empty range.
-/

namespace PropSat

namespace Families

/-- Literals are asked for, and their number is zero in 64 bits. -/
def ProductWraps (count width : Nat) : Prop :=
  0 < count ∧ 0 < width ∧ 2 ^ 64 ∣ count * width

instance (count width : Nat) : Decidable (ProductWraps count width) :=
  inferInstanceAs (Decidable (_ ∧ _ ∧ _))

variable {σ : Type} [Generator σ] {source : σ} {count width : Nat}

theorem literalsWanted_eq_zero_iff :
    literalsWanted count width = 0 ↔
      count = 0 ∨ width = 0 ∨ ProductWraps count width := by
  have divides : literalsWanted count width = 0 ↔ 2 ^ 64 ∣ count * width :=
    Nat.dvd_iff_mod_eq_zero.symm
  rw [divides, ProductWraps]
  constructor
  · intro divides
    by_cases asked : 0 < count ∧ 0 < width
    · exact .inr (.inr ⟨asked.1, asked.2, divides⟩)
    · omega
  · rintro (rfl | rfl | ⟨_, _, divides⟩)
    · simp
    · simp
    · exact divides

theorem literalsWanted_ne_zero_iff :
    literalsWanted count width ≠ 0 ↔
      (0 < count ∧ 0 < width) ∧ ¬ProductWraps count width := by
  rw [Ne, literalsWanted_eq_zero_iff, not_or, not_or, and_assoc,
    Nat.pos_iff_ne_zero, Nat.pos_iff_ne_zero]

theorem not_productWraps_of_lt (fits : count * width < 2 ^ 64) :
    ¬ProductWraps count width := by
  rintro ⟨someClause, someLiteral, divides⟩
  have atLeast := Nat.le_of_dvd (Nat.mul_pos someClause someLiteral) divides
  omega

/-- A pool without names is refused, or ends the drawing, or is not needed. -/
theorem randomClauses_nil :
    randomClauses source [] count width =
      if literalsWanted count width ≠ 0 then .error .emptyPool
      else if ProductWraps count width then .error .emptyRange
      else .ok (.conj (List.replicate count (.disj [])), source) := by
  have notFilled : ¬0 < ([] : List String).toArray.size := by simp
  rw [randomClauses, dif_neg notFilled]
  by_cases wanted : literalsWanted count width ≠ 0
  · rw [if_pos wanted, if_pos wanted]
  · rw [if_neg wanted, if_neg wanted]
    have nothing := literalsWanted_eq_zero_iff.mp (not_not.mp wanted)
    by_cases wraps : ProductWraps count width
    · rw [if_pos wraps, if_pos]
      exact ⟨wraps.1.ne', wraps.2.1.ne'⟩
    · rw [if_neg wraps, if_neg]
      tauto

theorem randomClauses_nil_eq_emptyPool_iff :
    randomClauses source [] count width = .error .emptyPool ↔
      (0 < count ∧ 0 < width) ∧ ¬ProductWraps count width := by
  rw [randomClauses_nil, ← literalsWanted_ne_zero_iff]
  split_ifs with wanted wraps <;> simp [wanted]

theorem randomClauses_nil_eq_emptyRange_iff :
    randomClauses source [] count width = .error .emptyRange ↔
      ProductWraps count width := by
  rw [randomClauses_nil]
  split_ifs with wanted wraps
  · simp [(literalsWanted_ne_zero_iff.mp wanted).2]
  · simp [wraps]
  · simp [wraps]

end Families

namespace CommandLine

namespace RandomOptions

variable {options : RandomOptions}

theorem isRefused_iff (noVariables : options.vars = 0) :
    options.IsRefused ↔ (0 < options.clauses ∧ 0 < options.width) ∧
      ¬Families.ProductWraps options.clauses options.width := by
  rw [IsRefused, Families.literalsWanted_ne_zero_iff]
  exact and_iff_right noVariables

theorem pool_eq_nil (noVariables : options.vars = 0) : options.pool = [] := by
  rw [pool, noVariables]
  rfl

end RandomOptions

namespace Session

variable {m : Type → Type} [Monad m] [LawfulMonad m] {τ : Type}
  {session : Session m τ} {options : RandomOptions}

theorem solveRandom_of_isRefused (refused : options.IsRefused) :
    session.solveRandom options = throw .noVariables := by
  unfold RandomOptions.IsRefused at refused
  rw [solveRandom, if_pos refused]
  apply ExceptT.ext
  simp

/-- A product that wraps is let through, and the first trial ends the run. -/
theorem solveRandom_endsWith_of_wraps (noVariables : options.vars = 0)
    (wraps : Families.ProductWraps options.clauses options.width)
    (someTrial : 0 < options.trials) :
    (session.solveRandom options).EndsWith
      (.error (.undrawable .emptyRange)) := by
  have allowed : ¬options.IsRefused := fun refused =>
    ((RandomOptions.isRefused_iff noVariables).mp refused).2 wraps
  have drawn : Families.randomClauses (RandomSource.mk options.common.seed) []
      options.clauses options.width = .error .emptyRange :=
    Families.randomClauses_nil_eq_emptyRange_iff.mpr wraps
  obtain ⟨later, isSucc⟩ := Nat.exists_eq_succ_of_ne_zero someTrial.ne'
  rw [solveRandom_of_not_isRefused allowed,
    RandomOptions.pool_eq_nil noVariables, isSucc, solveTrials, drawn]
  exact (Action.endsWith_throw _).bind_error.bind_error

/-- Without variables a run is refused, or draws from an empty range, or has
nothing to draw and solves formulas without literals. -/
theorem solveRandom_of_no_variables (keeps : session.host.KeepsValues)
    (noVariables : options.vars = 0) :
    (options.IsRefused ∧ session.solveRandom options = throw .noVariables) ∨
    (Families.ProductWraps options.clauses options.width ∧
      0 < options.trials ∧ (session.solveRandom options).EndsWith
        (.error (.undrawable .emptyRange))) ∨
    (¬options.IsRefused ∧
      ¬(Families.ProductWraps options.clauses options.width ∧
        0 < options.trials) ∧
      ∃ formulas, options.Draws formulas ∧
        session.EndsPrinting (session.solveRandom options)
          (trialLines (formulas.map options.trial) ++
            [satisfiableLine formulas])
          (.ok (formulas.map options.trial))) := by
  by_cases refused : options.IsRefused
  · exact .inl ⟨refused, solveRandom_of_isRefused refused⟩
  by_cases drawsFromNothing :
      Families.ProductWraps options.clauses options.width ∧ 0 < options.trials
  · obtain ⟨wraps, someTrial⟩ := drawsFromNothing
    exact .inr (.inl ⟨wraps, someTrial,
      solveRandom_endsWith_of_wraps noVariables wraps someTrial⟩)
  · have draws : ∃ formulas, options.Draws formulas := by
      by_cases noTrial : options.trials = 0
      · exact ⟨[], noTrial.symm, .none _⟩
      · apply RandomOptions.exists_draws
        rw [RandomOptions.isRefused_iff noVariables] at refused
        have wraps : ¬Families.ProductWraps options.clauses options.width :=
          fun wraps => drawsFromNothing ⟨wraps, Nat.pos_of_ne_zero noTrial⟩
        have nothing : ¬(0 < options.clauses ∧ 0 < options.width) :=
          fun asked => refused ⟨asked, wraps⟩
        omega
    obtain ⟨formulas, draws⟩ := draws
    have fits := draws.tablesFit (by omega)
    exact .inr (.inr ⟨refused, drawsFromNothing, formulas, draws,
      solveRandom_endsPrinting_of_draws keeps refused draws fits⟩)

end Session

theorem Session.run_of_no_variables {σ τ : Type}
    {session : Session (StateM σ) τ} {options : RandomOptions}
    (keeps : session.host.KeepsValues) (noVariables : options.vars = 0)
    {state later : σ} {result : Except Failure (List Trial)}
    (runs : (session.solveRandom options).run.run state = (result, later)) :
    (result = .error .noVariables ↔ options.IsRefused) ∧
    (result = .error .noVariables → later = state) ∧
    (result = .error (.undrawable .emptyRange) ↔
      Families.ProductWraps options.clauses options.width ∧
        0 < options.trials) := by
  rcases session.solveRandom_of_no_variables keeps noVariables with
    ⟨refused, throws⟩ | ⟨wraps, someTrial, ends⟩ |
      ⟨allowed, notDrawn, formulas, _, prints⟩
  · have ended : (session.solveRandom options).run.run state =
        (.error .noVariables, state) := by
      rw [throws]
      rfl
    rw [ended] at runs
    cases runs
    have notWraps :=
      ((RandomOptions.isRefused_iff noVariables).mp refused).2
    simp [refused, notWraps]
  · obtain ⟨_, ended⟩ := ends.exists_run_eq state
    rw [ended] at runs
    cases runs
    have allowed : ¬options.IsRefused := fun refused =>
      ((RandomOptions.isRefused_iff noVariables).mp refused).2 wraps
    simp [allowed, wraps, someTrial]
  · obtain ⟨_, ended⟩ := prints.endsWith.exists_run_eq state
    rw [ended] at runs
    cases runs
    simp [allowed, notDrawn]

/-- Without a variable, literals that are asked for are refused exactly as long
as their product does not wrap to zero in 64 bits, and it does not where it has
room.  A run that is refused changes nothing.  A product that wraps is let
through, and a literal is drawn from an empty range: at once where only a
formula is drawn, and in the first trial of a run, if it has one.  Limits of
memory are left out: a list that is too long to be allocated would stop the
program before that draw. -/
theorem empty_pool_refused_unless_product_wraps (count width : Nat) :
    (∀ (σ : Type) [Generator σ] (source : σ),
      (Families.randomClauses source [] count width = .error .emptyPool ↔
        (0 < count ∧ 0 < width) ∧ ¬Families.ProductWraps count width) ∧
      (Families.randomClauses source [] count width = .error .emptyRange ↔
        Families.ProductWraps count width)) ∧
    (∀ (σ τ : Type) (session : Session (StateM σ) τ),
      session.host.KeepsValues →
      ∀ (trials : Nat) (crossCheck : Bool) (common : CommonOptions)
        (state later : σ) (result : Except Failure (List Trial)),
        (session.solveRandom ⟨0, count, width, trials, crossCheck,
          common⟩).run.run state = (result, later) →
        (result = .error .noVariables ↔
          (0 < count ∧ 0 < width) ∧ ¬Families.ProductWraps count width) ∧
        (result = .error .noVariables → later = state) ∧
        (result = .error (.undrawable .emptyRange) ↔
          Families.ProductWraps count width ∧ 0 < trials)) ∧
    (count * width < 2 ^ 64 → ¬Families.ProductWraps count width) := by
  refine ⟨?formula, ?run, Families.not_productWraps_of_lt⟩
  case formula =>
    intro σ _ source
    exact ⟨Families.randomClauses_nil_eq_emptyPool_iff,
      Families.randomClauses_nil_eq_emptyRange_iff⟩
  case run =>
    intro σ τ session keeps trials crossCheck common state later result runs
    have ends := Session.run_of_no_variables keeps rfl runs
    rwa [RandomOptions.isRefused_iff rfl] at ends

/-- 2^32 clauses of 2^32 literals: nothing refuses them, there is no name for
the first literal, and a run without trials succeeds. -/
theorem empty_pool_let_through :
    0 < 2 ^ 32 ∧
      Families.randomClauses (RandomSource.mk 0) [] (2 ^ 32) (2 ^ 32) =
        .error .emptyRange ∧
      (Session.solveRandom ⟨Host.ofFiles ⟨.directory [], []⟩ "", ⟨[]⟩⟩
        ⟨0, 2 ^ 32, 2 ^ 32, 0, false, .default⟩).run.run ⟨"", ""⟩ =
          (.ok [], ⟨"0 of 0 formulas satisfiable\n", ""⟩) := by
  refine ⟨by decide, ?formula, ?run⟩
  case formula =>
    rw [Families.randomClauses_nil_eq_emptyRange_iff]
    decide
  case run => rfl

end CommandLine

end PropSat
