import PropSat.Proofs.CommandLine.Reporting
import PropSat.Proofs.DecisionProcedures
import PropSat.Proofs.RandomSeries

/-!
# Random trials report what was drawn

The formulas of a run are drawn one after another from one source, which
nothing else draws from.  No option takes part in a verdict, since each is
whether the formula drawn is satisfiable.  So a run succeeds, unless a truth
table is asked for that is too large, and runs with other options, or with
fewer trials, agree on the formulas and the verdicts that they have in common.
Each trial prints a line by its verdict, and the count of those with a model
comes last.
-/

namespace PropSat

/-- The search decides whether a formula is satisfiable. -/
instance (formula : Formula) : Decidable formula.IsSatisfiable :=
  decidable_of_iff _
    ((Formula.isCoveredBy_varsInOrder formula).isSat_dpll_iff .given)

namespace CommandLine

variable {m : Type → Type} [Monad m] {τ α β : Type}

namespace Action

variable [LawfulMonad m] {action : Action m α} {next : α → Action m β}
  {failure : Failure}

theorem endsWith_throw (failure : Failure) :
    EndsWith (throw failure : Action m α) (.error failure) := by
  refine ⟨pure (), ?_⟩
  simp

theorem EndsWith.bind_error (first : action.EndsWith (.error failure)) :
    EndsWith (action >>= next) (.error failure) := by
  obtain ⟨effects, runs⟩ := first
  refine ⟨effects, ?_⟩
  rw [ExceptT.run_bind, runs, bind_map_left]
  exact bind_pure_comp _ _

end Action

namespace RandomOptions

/-- The names that the formulas are drawn over and the search branches on. -/
def pool (options : RandomOptions) : List String :=
  Names.numbered "x" options.vars

/-- The formulas are those of all trials, in order. -/
def Draws (options : RandomOptions) (formulas : List Formula) : Prop :=
  formulas.length = options.trials ∧
    Families.Draws options.pool options.clauses options.width
      (RandomSource.mk options.common.seed) formulas

/-- What is drawn for the options is the same, up to the number of trials. -/
structure DrawsLike (options other : RandomOptions) : Prop where
  vars : options.vars = other.vars
  clauses : options.clauses = other.clauses
  width : options.width = other.width
  seed : options.common.seed = other.common.seed

/-- Literals are asked for, by the count of 64 bits, but no variables. -/
def IsRefused (options : RandomOptions) : Prop :=
  options.vars = 0 ∧
    Families.literalsWanted options.clauses options.width ≠ 0

/-- No truth table that the options ask for is too large. -/
def TablesFit (options : RandomOptions) (formulas : List Formula) : Prop :=
  options.crossCheck = true →
    ∀ formula ∈ formulas, formula.vars.size ≤ TruthTable.maxVariables

def trial (options : RandomOptions) (formula : Formula) : Trial where
  formula := formula
  outcome := dpll ∅ formula.clauses
    ((options.common.order.withSeed options.common.seed).arrange options.pool)

end RandomOptions

/-- The lines in which the verdicts on trials are printed. -/
def trialLines (solved : List Trial) : List String :=
  solved.map fun trial => verdictLine trial.outcome

namespace Session

variable [LawfulMonad m] {session : Session m τ} {options : RandomOptions}
  {formula : Formula} {source : RandomSource}

/-- An answer agrees with the truth table of the formula, if there is one. -/
theorem crossCheck_eq_ok (number : Nat)
    (covered : formula.IsCoveredBy options.pool)
    (small : formula.vars.size ≤ TruthTable.maxVariables) :
    (crossCheck number formula (options.trial formula).outcome :
      Action m Unit) = pure () := by
  have made : TruthTable.ofFormula formula = .ok _ :=
    TruthTable.ofTarget_eq_ok small
  have agrees := TruthTable.isSat_eq_of_ofFormula covered
    (options.common.order.withSeed options.common.seed) made
  rw [crossCheck, made, require, pure_bind]
  dsimp only
  rw [agrees, if_neg (by simp [RandomOptions.trial])]

theorem crossCheck_eq_error (number : Nat) (outcome : Outcome)
    (large : TruthTable.maxVariables < formula.vars.size) :
    (crossCheck number formula outcome : Action m Unit) =
      throw (.noTable ⟨formula.vars.size⟩) := by
  have refused : TruthTable.ofFormula formula =
      .error ⟨formula.vars.size⟩ :=
    TruthTable.ofTarget_eq_error_iff.mpr ⟨large, rfl⟩
  rw [crossCheck, refused]
  apply ExceptT.ext
  simp [require]

theorem solveAndReport_endsPrinting_trial (keeps : session.host.KeepsValues)
    (covered : formula.IsCoveredBy options.pool) (label : String)
    (parseTime : τ) :
    session.EndsPrinting
      (session.solveAndReport formula options.pool label parseTime
        options.common)
      [verdictLine (options.trial formula).outcome]
      (.ok (options.trial formula).outcome) := by
  obtain ⟨finding, verified⟩ := covered.exists_verify_eq_ok
    (options.common.order.withSeed options.common.seed)
  exact session.solveAndReport_endsPrinting keeps label parseTime rfl verified

/-- After its report a trial goes on as the comparison and the other trials
do. -/
theorem solveTrials_succ_endsPrinting (keeps : session.host.KeepsValues)
    {later : RandomSource} {remaining number : Nat} {solved : List Trial}
    {lines : List String} {result : Except Failure (List Trial)}
    (drawn : Families.randomClauses source options.pool options.clauses
      options.width = .ok (formula, later))
    (rest : session.EndsPrinting (do
      if options.crossCheck then
        crossCheck number formula (options.trial formula).outcome
      session.solveTrials options options.pool remaining (number + 1) later
        (options.trial formula :: solved)) lines result) :
    session.EndsPrinting
      (session.solveTrials options options.pool (remaining + 1) number source
        solved)
      (verdictLine (options.trial formula).outcome :: lines) result := by
  have covered := Formula.isCoveredBy_pool drawn
  rw [solveTrials, drawn, require, pure_bind]
  exact (solveAndReport_endsPrinting_trial keeps covered _ _).bind rest

/-- A trial that is not compared, or has a small table, is followed by the
others. -/
theorem solveTrials_succ_endsPrinting_of_fits
    (keeps : session.host.KeepsValues)
    {later : RandomSource} {remaining number : Nat} {solved : List Trial}
    {lines : List String} {result : Except Failure (List Trial)}
    (drawn : Families.randomClauses source options.pool options.clauses
      options.width = .ok (formula, later))
    (fits : options.crossCheck = true →
      formula.vars.size ≤ TruthTable.maxVariables)
    (rest : session.EndsPrinting
      (session.solveTrials options options.pool remaining (number + 1) later
        (options.trial formula :: solved)) lines result) :
    session.EndsPrinting
      (session.solveTrials options options.pool (remaining + 1) number source
        solved)
      (verdictLine (options.trial formula).outcome :: lines) result := by
  apply solveTrials_succ_endsPrinting keeps drawn
  split
  · next compared =>
      have covered := Formula.isCoveredBy_pool drawn
      rw [crossCheck_eq_ok number covered (fits compared), pure_bind]
      exact rest
  · exact rest

/-- The line that is printed for each trial, in order. -/
theorem solveTrials_endsPrinting (keeps : session.host.KeepsValues)
    {formulas : List Formula}
    (draws : Families.Draws options.pool options.clauses options.width source
      formulas)
    (fits : options.TablesFit formulas)
    (number : Nat) (solved : List Trial) :
    session.EndsPrinting
      (session.solveTrials options options.pool formulas.length number source
        solved)
      (trialLines (formulas.map options.trial))
      (.ok ((formulas.map options.trial).reverse ++ solved)) := by
  induction draws generalizing number solved with
  | none source => exact endsPrinting_nil rfl
  | @next source later formula formulas drawn _ induction =>
      simp only [RandomOptions.TablesFit, List.forall_mem_cons] at fits
      apply solveTrials_succ_endsPrinting_of_fits keeps drawn fun compared =>
        (fits compared).1
      simpa [trialLines] using induction (fun compared => (fits compared).2)
        (number + 1) (options.trial formula :: solved)

/-- The first formula with a large table ends the run that compares. -/
theorem solveTrials_endsPrinting_error (keeps : session.host.KeepsValues)
    {formulas : List Formula}
    (draws : Families.Draws options.pool options.clauses options.width source
      formulas)
    (compared : options.crossCheck = true)
    (large : formulas.find? (fun formula =>
      TruthTable.maxVariables < formula.vars.size) = some formula)
    (number : Nat) (solved : List Trial) :
    ∃ lines, session.EndsPrinting
      (session.solveTrials options options.pool formulas.length number source
        solved) lines (.error (.noTable ⟨formula.vars.size⟩)) := by
  induction draws generalizing number solved with
  | none source => cases large
  | @next source later first formulas drawn _ induction =>
      by_cases tooLarge : TruthTable.maxVariables < first.vars.size
      · rw [List.find?_cons_of_pos (by simpa using tooLarge)] at large
        cases large
        refine ⟨[_], solveTrials_succ_endsPrinting keeps drawn ?_⟩
        rw [if_pos compared, crossCheck_eq_error number _ tooLarge]
        exact (endsPrinting_nil rfl).bind_error
      · rw [List.find?_cons_of_neg (by simpa using tooLarge)] at large
        obtain ⟨lines, rest⟩ := induction large (number + 1) _
        refine ⟨_, solveTrials_succ_endsPrinting_of_fits keeps drawn ?_ rest⟩
        intro _
        exact Nat.le_of_not_lt tooLarge

end Session

/-- How many of the formulas have a model, as it is printed after the
trials. -/
def satisfiableLine (formulas : List Formula) : String :=
  let satisfiable := formulas.countP fun formula =>
    decide formula.IsSatisfiable
  s!"{satisfiable} of {formulas.length} formulas satisfiable"

namespace RandomOptions

variable {options other : RandomOptions} {formulas others : List Formula}

@[simp]
theorem length_pool (options : RandomOptions) :
    options.pool.length = options.vars := by
  simp [pool, Names.numbered]

theorem exists_draws (drawable :
    0 < options.vars ∨ options.clauses = 0 ∨ options.width = 0) :
    ∃ formulas, options.Draws formulas := by
  apply Families.exists_draws
  simpa using drawable

theorem not_isRefused_of_drawable (drawable :
    0 < options.vars ∨ options.clauses = 0 ∨ options.width = 0) :
    ¬options.IsRefused := by
  rintro ⟨empty, wanted⟩
  rcases drawable with filled | nothing | nothing
  · omega
  · simp [Families.literalsWanted, nothing] at wanted
  · simp [Families.literalsWanted, nothing] at wanted

theorem Draws.take (draws : options.Draws formulas)
    (alike : other.DrawsLike options) (fewer : other.trials ≤ options.trials) :
    other.Draws (formulas.take other.trials) := by
  obtain ⟨length, drawn⟩ := draws
  refine ⟨?_, ?_⟩
  · rw [List.length_take, length, Nat.min_eq_left fewer]
  · rw [pool, alike.vars, alike.clauses, alike.width, alike.seed]
    exact drawn.take other.trials

theorem Draws.unique (draws : options.Draws formulas)
    (otherDraws : options.Draws others) : others = formulas := by
  apply otherDraws.2.unique draws.2
  rw [otherDraws.1, draws.1]

/-- The verdict on a formula that is drawn does not depend on the options. -/
theorem Draws.isSat_trial (draws : options.Draws formulas)
    {formula : Formula} (member : formula ∈ formulas) :
    (options.trial formula).outcome.isSat = decide formula.IsSatisfiable := by
  have covered := draws.2.isCoveredBy formula member
  rw [Bool.eq_iff_iff, decide_eq_true_iff]
  exact covered.isSat_dpll_iff _

theorem Draws.map_verdict (draws : options.Draws formulas) :
    (formulas.map options.trial).map (·.outcome.isSat) =
      formulas.map fun formula => decide formula.IsSatisfiable := by
  rw [List.map_map]
  apply List.map_congr_left
  intro formula member
  exact draws.isSat_trial member

theorem Draws.countP_isSat (draws : options.Draws formulas) :
    (formulas.map options.trial).countP (·.outcome.isSat) =
      formulas.countP fun formula => decide formula.IsSatisfiable := by
  rw [List.countP_map]
  apply List.countP_congr
  intro formula member
  rw [Function.comp_apply, draws.isSat_trial member]

theorem Draws.tablesFit (draws : options.Draws formulas)
    (small : options.vars ≤ TruthTable.maxVariables) :
    options.TablesFit formulas := by
  intro _ formula member
  have covered := draws.2.isCoveredBy formula member
  have bound : formula.vars.size ≤ options.pool.length :=
    NameSet.size_le_length covered
  rw [length_pool] at bound
  exact bound.trans small

theorem exists_find?_of_not_tablesFit (unfit : ¬options.TablesFit formulas) :
    options.crossCheck = true ∧
      ∃ formula, formulas.find? (fun formula =>
        TruthTable.maxVariables < formula.vars.size) = some formula := by
  simp only [TablesFit, not_forall, Nat.not_le] at unfit
  obtain ⟨compared, formula, member, large⟩ := unfit
  refine ⟨compared, ?_⟩
  rw [← Option.isSome_iff_exists, List.find?_isSome]
  exact ⟨formula, member, by simpa using large⟩

theorem map_formula_trial (options : RandomOptions)
    (formulas : List Formula) :
    (formulas.map options.trial).map Trial.formula = formulas := by
  rw [List.map_map]
  exact List.map_id formulas

end RandomOptions

namespace Session

variable [LawfulMonad m] {session : Session m τ} {options : RandomOptions}
  {formulas : List Formula}

omit [LawfulMonad m] in
theorem solveRandom_of_not_isRefused (allowed : ¬options.IsRefused) :
    session.solveRandom options = do
      let solved ← session.solveTrials options options.pool options.trials 0
        ⟨options.common.seed⟩ []
      let satisfiable := solved.countP (·.outcome.isSat)
      session.printLine
        s!"{satisfiable} of {options.trials} formulas satisfiable"
      return solved.reverse := by
  unfold RandomOptions.IsRefused at allowed
  rw [solveRandom, if_neg allowed]
  rfl

/-- A run that is let through, on formulas that can be drawn, prints a verdict
for each of them and then how many have a model. -/
theorem solveRandom_endsPrinting_of_draws (keeps : session.host.KeepsValues)
    (allowed : ¬options.IsRefused)
    (draws : options.Draws formulas)
    (fits : options.TablesFit formulas) :
    session.EndsPrinting (session.solveRandom options)
      (trialLines (formulas.map options.trial) ++ [satisfiableLine formulas])
      (.ok (formulas.map options.trial)) := by
  have trials := solveTrials_endsPrinting keeps draws.2 fits 0 []
  rw [draws.1, List.append_nil] at trials
  rw [solveRandom_of_not_isRefused allowed]
  apply trials.bind
  rw [List.countP_reverse, draws.countP_isSat, List.reverse_reverse, ← draws.1]
  apply endsPrinting_singleton_iff.mpr
  refine ⟨pure (), ?_⟩
  simp [printLine, satisfiableLine, Except.map]

theorem solveRandom_endsPrinting (keeps : session.host.KeepsValues)
    (drawable : 0 < options.vars ∨ options.clauses = 0 ∨ options.width = 0)
    (draws : options.Draws formulas)
    (fits : options.TablesFit formulas) :
    session.EndsPrinting (session.solveRandom options)
      (trialLines (formulas.map options.trial) ++ [satisfiableLine formulas])
      (.ok (formulas.map options.trial)) :=
  solveRandom_endsPrinting_of_draws keeps
    (RandomOptions.not_isRefused_of_drawable drawable) draws fits

theorem solveRandom_endsWith_error (keeps : session.host.KeepsValues)
    (drawable : 0 < options.vars ∨ options.clauses = 0 ∨ options.width = 0)
    (draws : options.Draws formulas) (unfit : ¬options.TablesFit formulas) :
    ∃ formula ∈ formulas, TruthTable.maxVariables < formula.vars.size ∧
      (session.solveRandom options).EndsWith
        (.error (.noTable ⟨formula.vars.size⟩)) := by
  obtain ⟨compared, formula, large⟩ :=
    RandomOptions.exists_find?_of_not_tablesFit unfit
  refine ⟨formula, List.mem_of_find?_eq_some large, ?_, ?_⟩
  · simpa using List.find?_some large
  · obtain ⟨lines, ends⟩ :=
      solveTrials_endsPrinting_error keeps draws.2 compared large 0 []
    rw [draws.1] at ends
    rw [solveRandom_of_not_isRefused
      (RandomOptions.not_isRefused_of_drawable drawable)]
    exact ends.bind_error.endsWith

end Session

/-- A run that succeeds has solved the formulas that are drawn. -/
theorem Session.eq_map_trial_of_solveRandom {σ : Type}
    {session : Session (StateM σ) τ} {options : RandomOptions}
    {formulas : List Formula} (keeps : session.host.KeepsValues)
    (drawable : 0 < options.vars ∨ options.clauses = 0 ∨ options.width = 0)
    (draws : options.Draws formulas) {state later : σ} {solved : List Trial}
    (runs : (session.solveRandom options).run.run state =
      (.ok solved, later)) :
    solved = formulas.map options.trial := by
  by_cases fits : options.TablesFit formulas
  · have ends := (solveRandom_endsPrinting keeps drawable draws fits).endsWith
    obtain ⟨_, ended⟩ := ends.exists_run_eq state
    rw [runs] at ended
    cases ended
    rfl
  · obtain ⟨_, _, _, ends⟩ :=
      solveRandom_endsWith_error keeps drawable draws fits
    obtain ⟨_, ended⟩ := ends.exists_run_eq state
    rw [runs] at ended
    cases ended

/-- One list of formulas belongs to the options that say what is drawn, and
all runs with these, whatever the other options and with as many trials or
fewer, go through it from its start.  Such a run ends with the verdicts on
these formulas.  It prints one line for each, by its verdict, and at last how
many have a model.  Only a truth table that is asked for and too large makes
it fail.  So the trials of any run that succeeds are the first ones of a
longer run. -/
theorem random_verdicts_depend_on_draws (options : RandomOptions)
    (drawable :
      0 < options.vars ∨ options.clauses = 0 ∨ options.width = 0) :
    ∃ formulas, (∀ drawn, options.Draws drawn ↔ drawn = formulas) ∧
      ∀ other : RandomOptions, other.DrawsLike options →
        other.trials ≤ options.trials →
        let shared := formulas.take other.trials
        (∀ (m : Type → Type) [Monad m] [LawfulMonad m] (τ : Type)
          (session : Session m τ), session.host.KeepsValues →
          (other.TablesFit shared →
            ∃ solved, session.EndsPrinting (session.solveRandom other)
                (trialLines solved ++ [satisfiableLine shared])
                (.ok solved) ∧
              solved.map Trial.formula = shared ∧
              solved.map (·.outcome.isSat) =
                shared.map fun formula => decide formula.IsSatisfiable) ∧
          (¬other.TablesFit shared →
            ∃ formula ∈ shared,
              TruthTable.maxVariables < formula.vars.size ∧
              (session.solveRandom other).EndsWith
                (.error (.noTable ⟨formula.vars.size⟩)))) ∧
        ∀ (σ σ' τ τ' : Type) (session : Session (StateM σ) τ)
          (otherSession : Session (StateM σ') τ'),
          session.host.KeepsValues → otherSession.host.KeepsValues →
          ∀ (state later : σ) (solved : List Trial)
            (otherState otherLater : σ') (otherSolved : List Trial),
            (session.solveRandom options).run.run state =
              (.ok solved, later) →
            (otherSession.solveRandom other).run.run otherState =
              (.ok otherSolved, otherLater) →
            otherSolved.map Trial.formula =
              (solved.map Trial.formula).take other.trials ∧
            otherSolved.map (·.outcome.isSat) =
              (solved.map (·.outcome.isSat)).take other.trials := by
  obtain ⟨formulas, draws⟩ := RandomOptions.exists_draws drawable
  have isDrawn (drawn : List Formula) :
      options.Draws drawn ↔ drawn = formulas :=
    ⟨draws.unique, fun same => same ▸ draws⟩
  refine ⟨formulas, isDrawn, ?_⟩
  intro other alike fewer shared
  have otherDraws : other.Draws shared := draws.take alike fewer
  have otherDrawable :
      0 < other.vars ∨ other.clauses = 0 ∨ other.width = 0 := by
    rw [alike.vars, alike.clauses, alike.width]
    exact drawable
  refine ⟨?_, ?_⟩
  · intro m _ _ τ session keeps
    refine ⟨?_, session.solveRandom_endsWith_error keeps otherDrawable
      otherDraws⟩
    intro fits
    exact ⟨_, session.solveRandom_endsPrinting keeps otherDrawable otherDraws
      fits, other.map_formula_trial shared, otherDraws.map_verdict⟩
  · intro σ σ' τ τ' session otherSession keeps otherKeeps state later solved
      otherState otherLater otherSolved runs otherRuns
    rw [Session.eq_map_trial_of_solveRandom keeps drawable draws runs,
      Session.eq_map_trial_of_solveRandom otherKeeps otherDrawable otherDraws
        otherRuns]
    refine ⟨?_, ?_⟩
    · rw [RandomOptions.map_formula_trial, RandomOptions.map_formula_trial]
    · rw [otherDraws.map_verdict, draws.map_verdict, List.map_take]

/-- One trial with shuffled names after two that are compared with truth
tables, on a host without any files. -/
theorem random_verdicts_depend_on_draws_fewer :
    ∃ solved later otherSolved otherLater,
      (Session.solveRandom ⟨Host.ofFiles ⟨.directory [], []⟩ "", ⟨[]⟩⟩
        ⟨2, 2, 1, 2, true, .default⟩).run.run ⟨"", ""⟩ =
          (.ok solved, later) ∧
      (Session.solveRandom ⟨Host.ofFiles ⟨.directory [], []⟩ "", ⟨[]⟩⟩
        ⟨2, 2, 1, 1, false, { CommonOptions.default with
          order := .shuffled }⟩).run.run ⟨"", ""⟩ =
            (.ok otherSolved, otherLater) ∧
      otherSolved.map Trial.formula =
        (solved.map Trial.formula).take 1 ∧
      otherSolved.map (·.outcome.isSat) =
        (solved.map (·.outcome.isSat)).take 1 := by
  let session : Session (StateM Transcript) Unit :=
    ⟨Host.ofFiles ⟨.directory [], []⟩ "", ⟨[]⟩⟩
  have keeps : session.host.KeepsValues := Host.ofFiles_keepsValues _ _
  let options : RandomOptions := ⟨2, 2, 1, 2, true, .default⟩
  let other : RandomOptions :=
    ⟨2, 2, 1, 1, false, { CommonOptions.default with order := .shuffled }⟩
  obtain ⟨formulas, isDrawn, reports⟩ :=
    random_verdicts_depend_on_draws options (.inl (by decide))
  have draws : options.Draws formulas := (isDrawn formulas).mpr rfl
  obtain ⟨report, _⟩ := reports options ⟨rfl, rfl, rfl, rfl⟩ (Nat.le_refl _)
  obtain ⟨otherReport, agree⟩ :=
    reports other ⟨rfl, rfl, rfl, rfl⟩ (by decide)
  have fits : options.TablesFit (formulas.take options.trials) := by
    rw [← draws.1, List.take_length]
    exact draws.tablesFit (by decide)
  have otherFits : other.TablesFit (formulas.take other.trials) := by
    intro compared
    cases compared
  obtain ⟨solved, ends, _⟩ := (report _ _ session keeps).1 fits
  obtain ⟨otherSolved, otherEnds, _⟩ :=
    (otherReport _ _ session keeps).1 otherFits
  obtain ⟨later, runs⟩ := ends.endsWith.exists_run_eq ⟨"", ""⟩
  obtain ⟨otherLater, otherRuns⟩ := otherEnds.endsWith.exists_run_eq ⟨"", ""⟩
  obtain ⟨sameFormulas, sameVerdicts⟩ := agree _ _ _ _ session session keeps
    keeps _ _ _ _ _ _ runs otherRuns
  exact ⟨solved, later, otherSolved, otherLater, runs, otherRuns,
    sameFormulas, sameVerdicts⟩

end CommandLine

end PropSat
