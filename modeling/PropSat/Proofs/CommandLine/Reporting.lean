import PropSat.CommandLine.Solve
import PropSat.Proofs.CheckedOutcome

/-!
# Reports that cannot fail

An action succeeds when each of its results is a value, whatever its host does
on the way.  With covering candidates the solver's own answer passes the
verification, so a report on it always succeeds, and with that answer.

Of what is printed on the way, some lines are fixed by the answer.  They are
given in order, and what else happens before each of them is left open, so
that the lines of actions in sequence are appended.  The last thing that a
report prints is its verdict.
-/

namespace PropSat.CommandLine

variable {m : Type → Type} [Monad m] {τ α β : Type}

/-- The action has the effects of one that only finds values of a certain
kind, and ends with the value found. -/
def Action.SucceedsWith (action : Action m α) (Holds : α → Prop) : Prop :=
  ∃ effects : m {value // Holds value},
    action.run = (fun found => .ok found.val) <$> effects

/-- The action has some effects and ends with the given result. -/
def Action.EndsWith (action : Action m α) (result : Except Failure α) :
    Prop :=
  ∃ effects : m Unit, action.run = (fun _ => result) <$> effects

/-- Prints lines in order, each after some effects of its own. -/
def Session.printEach (session : Session m τ)
    (report : List (m Unit × String)) : m Unit :=
  report.forM fun entry => do
    entry.1
    session.host.print (entry.2 ++ "\n")

/-- The action prints the lines in order, each after some other effects, and
then ends with the given result. -/
def Session.EndsPrinting (session : Session m τ) (action : Action m α)
    (lines : List String) (result : Except Failure α) : Prop :=
  ∃ report : List (m Unit × String), report.map Prod.snd = lines ∧
    action.run = (fun _ => result) <$> session.printEach report

/-- The last line of a report on an answer. -/
def verdictLine (outcome : Outcome) : String :=
  if outcome.isSat then "SATISFIABLE" else "UNSATISFIABLE"

/-- Measuring time changes nothing of the value whose time is measured. -/
def Host.KeepsValues (host : Host m τ) : Prop :=
  ∀ {α : Type} (value : Unit → α), ∃ elapsed : m τ,
    host.timed value = (fun time => (value (), time)) <$> elapsed

theorem Host.ofFiles_keepsValues (files : FileSystem) (figure : String) :
    (Host.ofFiles files figure).KeepsValues := by
  intro α value
  exact ⟨pure (), rfl⟩

namespace Action

variable [LawfulMonad m] {Holds : α → Prop}

theorem succeedsWith_pure {value : α} (holds : Holds value) :
    SucceedsWith (pure value : Action m α) Holds := by
  refine ⟨pure ⟨value, holds⟩, ?_⟩
  simp

/-- What a host does cannot make an action fail. -/
theorem succeedsWith_lift (effects : m β) {finish : β → α}
    (holds : ∀ found, Holds (finish found)) :
    SucceedsWith (liftM (finish <$> effects) : Action m α) Holds := by
  refine ⟨(fun found => ⟨finish found, holds found⟩) <$> effects, ?_⟩
  simp [Except.map]

theorem succeedsWith_effects (effects : m α) :
    SucceedsWith (liftM effects : Action m α) fun _ => True := by
  have mapped : SucceedsWith (liftM (id <$> effects) : Action m α)
      (fun _ => True) := succeedsWith_lift effects fun _ => trivial
  rw [id_map] at mapped
  exact mapped

end Action

theorem Action.SucceedsWith.exists_run_eq {σ : Type}
    {action : Action (StateM σ) α} {Holds : α → Prop}
    (succeeds : action.SucceedsWith Holds) (state : σ) :
    ∃ value later, Holds value ∧
      action.run.run state = (.ok value, later) := by
  obtain ⟨effects, runs⟩ := succeeds
  rw [runs]
  exact ⟨_, _, (effects.run state).1.property, rfl⟩

theorem Action.EndsWith.exists_run_eq {σ : Type} {action : Action (StateM σ) α}
    {result : Except Failure α} (ends : action.EndsWith result) (state : σ) :
    ∃ later, action.run.run state = (result, later) := by
  obtain ⟨effects, runs⟩ := ends
  rw [runs]
  exact ⟨_, rfl⟩

namespace Session

section Printing

variable {session : Session m τ} {action : Action m α}
  {next : α → Action m β} {lines later : List String} {line : String}
  {value : α} {failure : Failure}

theorem EndsPrinting.endsWith {result : Except Failure α}
    (ends : session.EndsPrinting action lines result) :
    action.EndsWith result := by
  obtain ⟨report, _, runs⟩ := ends
  exact ⟨session.printEach report, runs⟩

variable [LawfulMonad m]

theorem EndsPrinting.succeedsWith
    (ends : session.EndsPrinting action lines (.ok value)) :
    action.SucceedsWith (· = value) := by
  obtain ⟨report, _, runs⟩ := ends
  refine ⟨(fun _ => ⟨value, rfl⟩) <$> session.printEach report, ?_⟩
  rw [runs, Functor.map_map]

theorem printEach_append (report more : List (m Unit × String)) :
    session.printEach (report ++ more) =
      session.printEach report >>= fun _ => session.printEach more :=
  List.forM_append

theorem endsPrinting_nil {result : Except Failure α}
    (runs : action.run = pure result) :
    session.EndsPrinting action [] result := by
  refine ⟨[], rfl, ?_⟩
  simp [printEach, runs]

theorem EndsPrinting.bind {result : Except Failure β}
    (first : session.EndsPrinting action lines (.ok value))
    (second : session.EndsPrinting (next value) later result) :
    session.EndsPrinting (action >>= next) (lines ++ later) result := by
  obtain ⟨report, named, runs⟩ := first
  obtain ⟨laterReport, laterNamed, laterRuns⟩ := second
  refine ⟨report ++ laterReport, ?_, ?_⟩
  · rw [List.map_append, named, laterNamed]
  · rw [printEach_append, ExceptT.run_bind, runs, bind_map_left, map_bind]
    simp only [laterRuns]

theorem EndsPrinting.bind_error
    (first : session.EndsPrinting action lines (.error failure)) :
    session.EndsPrinting (action >>= next) lines (.error failure) := by
  obtain ⟨report, named, runs⟩ := first
  refine ⟨report, named, ?_⟩
  rw [ExceptT.run_bind, runs, bind_map_left]
  exact bind_pure_comp _ _

theorem endsPrinting_singleton_iff {result : Except Failure α} :
    session.EndsPrinting action [line] result ↔
      ∃ effects : m Unit, action.run = do
        effects
        session.host.print (line ++ "\n")
        return result := by
  constructor
  · intro ⟨report, named, runs⟩
    obtain ⟨⟨effects, _⟩, rfl, rfl⟩ := List.map_eq_singleton_iff.mp named
    refine ⟨effects, ?_⟩
    simp [runs, printEach]
  · intro ⟨effects, runs⟩
    refine ⟨[(effects, line)], rfl, ?_⟩
    simp [runs, printEach]

/-- What comes before a line belongs to the effects before it. -/
theorem endsPrinting_after
    {Holds : α → Prop} {result : Except Failure β}
    (first : action.SucceedsWith Holds)
    (second : ∀ value, Holds value →
      session.EndsPrinting (next value) [line] result) :
    session.EndsPrinting (action >>= next) [line] result := by
  obtain ⟨effects, runs⟩ := first
  have after (found : {value // Holds value}) :=
    endsPrinting_singleton_iff.mp (second found.val found.property)
  choose laterEffects laterRuns using after
  rw [endsPrinting_singleton_iff]
  refine ⟨effects >>= laterEffects, ?_⟩
  rw [ExceptT.run_bind, runs, bind_map_left, bind_assoc]
  simp only [laterRuns]

end Printing

variable [LawfulMonad m] {session : Session m τ}

theorem succeedsWith_timed (keeps : session.host.KeepsValues)
    (value : Unit → α) :
    Action.SucceedsWith
      (liftM (session.host.timed value) : Action m (α × τ))
      (fun found => found.1 = value ()) := by
  obtain ⟨elapsed, measured⟩ := keeps value
  rw [measured]
  exact Action.succeedsWith_lift elapsed fun _ => rfl

theorem reportCheck_succeedsWith {formula : Formula} {problem : Problem}
    {outcome : Outcome} {finding : Verified} (common : CommonOptions)
    (verified :
      verify formula problem.cnf problem.names outcome = .ok finding) :
    (session.reportCheck formula problem outcome common).SucceedsWith
      fun _ => True := by
  unfold reportCheck
  split
  · rw [verified, require, pure_bind]
    exact Action.succeedsWith_effects _
  · exact Action.succeedsWith_pure trivial

/-- The verdict comes last, after the model if it is printed. -/
theorem reportVerdict_eq (outcome : Outcome) (common : CommonOptions) :
    ∃ effects : m Unit, session.reportVerdict outcome common =
      effects >>= fun _ =>
        session.host.print (verdictLine outcome ++ "\n") := by
  cases outcome with
  | satisfiable model =>
      refine ⟨if common.printSolution then
        session.printLine s!"Solution: {model}" else pure (), ?_⟩
      cases asked : common.printSolution <;>
        simp [reportVerdict, verdictLine, printLine, Outcome.isSat, asked]
  | unsatisfiable =>
      refine ⟨pure (), ?_⟩
      simp [reportVerdict, verdictLine, printLine, Outcome.isSat]

theorem reportVerdict_endsPrinting (outcome : Outcome)
    (common : CommonOptions) :
    session.EndsPrinting
      (do session.reportVerdict outcome common; return outcome)
      [verdictLine outcome] (.ok outcome) := by
  obtain ⟨effects, prints⟩ := session.reportVerdict_eq outcome common
  let action : Action m Outcome := do
    session.reportVerdict outcome common
    return outcome
  have runs : action.run =
      (fun _ => .ok outcome) <$> session.reportVerdict outcome common := by
    simp [action, Except.map]
  apply endsPrinting_singleton_iff.mpr
  refine ⟨effects, ?_⟩
  rw [runs, prints]
  simp

/-- A report on the search for a formula ends with the answer of the search
and its verdict, if no check finds fault with that answer. -/
theorem solveAndReport_endsPrinting {formula : Formula}
    {candidates : List String} {common : CommonOptions}
    {order : VariableOrder} {finding : Verified}
    (keeps : session.host.KeepsValues) (label : String) (parseTime : τ)
    (asked : common.order.withSeed common.seed = order)
    (verified : verify formula formula.clauses (order.arrange candidates)
      (dpll ∅ formula.clauses (order.arrange candidates)) = .ok finding) :
    let outcome := dpll ∅ formula.clauses (order.arrange candidates)
    session.EndsPrinting
      (session.solveAndReport formula candidates label parseTime common)
      [verdictLine outcome] (.ok outcome) := by
  subst asked
  unfold solveAndReport
  apply endsPrinting_after (Action.succeedsWith_effects _)
  intro _ _
  apply endsPrinting_after (succeedsWith_timed keeps _)
  rintro ⟨cnf, clauseTime⟩ rfl
  apply endsPrinting_after (Action.succeedsWith_effects _)
  intro _ _
  apply endsPrinting_after (succeedsWith_timed keeps _)
  intro ⟨⟨outcome, state⟩, solveTime⟩ solved
  have answer : outcome = dpll ∅ formula.clauses
      ((common.order.withSeed common.seed).arrange candidates) :=
    congrArg Prod.fst solved
  subst answer
  apply endsPrinting_after (Action.succeedsWith_effects _)
  intro _ _
  apply endsPrinting_after (reportCheck_succeedsWith common verified)
  intro _ _
  apply endsPrinting_after (Action.succeedsWith_effects _)
  intro _ _
  exact reportVerdict_endsPrinting _ common

end Session

/-- The atoms in order, the names of a puzzle and the pool of a random formula
are covering candidates.  With such candidates, in any order, the answer of
the search passes every check, so that a report on it succeeds, and there is a
model in it exactly when the formula is satisfiable. -/
theorem verification_accepts_search :
    (∀ formula : Formula, formula.IsCoveredBy formula.varsInOrder) ∧
    (∀ puzzle : Sudoku.Puzzle, puzzle.toFormula.IsCoveredBy puzzle.names) ∧
    (∀ (σ : Type) [Generator σ] (source later : σ) (pool : List String)
      (count width : Nat) (formula : Formula),
      Families.randomClauses source pool count width = .ok (formula, later) →
        formula.IsCoveredBy pool) ∧
    ∀ (formula : Formula) (candidates : List String),
      formula.IsCoveredBy candidates →
      ∀ common : CommonOptions,
        let order := common.order.withSeed common.seed
        let names := order.arrange candidates
        let outcome := dpll ∅ formula.clauses names
        (∀ (m : Type → Type) [Monad m] [LawfulMonad m] (τ : Type)
          (session : Session m τ), session.host.KeepsValues →
          ∀ (label : String) (parseTime : τ),
            (session.solveAndReport formula candidates label parseTime
              common).SucceedsWith (· = outcome)) ∧
        (∀ model, outcome = .satisfiable model →
          formula.IsConfirmedBy names model) ∧
        (outcome.isSat = true ↔ formula.IsSatisfiable) := by
  refine ⟨Formula.isCoveredBy_varsInOrder, Formula.isCoveredBy_names, ?_, ?_⟩
  · intro σ _ source later pool count width formula drawn
    exact Formula.isCoveredBy_pool drawn
  · intro formula candidates covered common order names outcome
    refine ⟨?_, ?_, covered.isSat_dpll_iff order⟩
    · intro m _ _ τ session keeps label parseTime
      obtain ⟨finding, verified⟩ := covered.exists_verify_eq_ok order
      exact (session.solveAndReport_endsPrinting keeps label parseTime rfl
        verified).succeedsWith
    · intro model found
      exact covered.isConfirmedBy_dpll found

/-- A conjunction, its candidates taken as they are given, and a host without
any files. -/
theorem verification_accepts_search_conj :
    ∃ later,
      (Session.solveAndReport
        ⟨Host.ofFiles ⟨.directory [], []⟩ "", ⟨[]⟩⟩
        (.conj [.atom "b", .neg (.atom "a")]) ["a", "c", "b"] "" ()
        { CommonOptions.default with order := .given }).run.run ⟨"", ""⟩ =
      (.ok (.satisfiable
        (.ofList [("a", false), ("b", true), ("c", true)])), later) := by
  have covered : Formula.IsCoveredBy
      (.conj [.atom "b", .neg (.atom "a")]) ["a", "c", "b"] := by
    unfold Formula.IsCoveredBy
    decide +kernel
  obtain ⟨_, _, _, accepts⟩ := verification_accepts_search
  obtain ⟨succeeds, _⟩ := accepts _ _ covered
    { CommonOptions.default with order := .given }
  obtain ⟨answer, later, isAnswer, runs⟩ := Action.SucceedsWith.exists_run_eq
    (succeeds _ _ ⟨Host.ofFiles ⟨.directory [], []⟩ "", ⟨[]⟩⟩
      (Host.ofFiles_keepsValues _ _) "" ()) ⟨"", ""⟩
  refine ⟨later, ?_⟩
  rw [runs, isAnswer]
  congr 2
  decide +kernel

end PropSat.CommandLine
