import PropSat.CommandLine.Failure
import PropSat.CommandLine.Host
import PropSat.CommandLine.Report
import PropSat.CommandLine.Usage
import PropSat.Formula.ClauseForm
import PropSat.Sudoku.Layout
import PropSat.Sudoku.Puzzle

/-!
# The commands

Each command comes down to solving formulas and reporting on each: the clauses
are made and the variables arranged, the search runs, its model is checked,
and statistics, model and verdict are printed as the options ask.
-/

namespace PropSat.CommandLine

/-- A host, and which messages reach it. -/
structure Session (m : Type → Type) (τ : Type) where
  host : Host m τ
  filter : LogFilter

structure Trial where
  formula : Formula
  outcome : Outcome

/-- Something that a command does, which may make it stop. -/
abbrev Action (m : Type → Type) (α : Type) := ExceptT Failure m α

namespace Session

variable {m : Type → Type} [Monad m] {τ : Type} (session : Session m τ)

def printLine (text : String) : m Unit := session.host.print (text ++ "\n")

def log (level : Level) (target : String) (message : Unit → String) :
    m Unit :=
  if session.filter.admits level target then
    session.host.complain (LogEntry.render ⟨level, target, message ()⟩)
  else pure ()

def logEvents (events : Array Event) : m Unit :=
  events.forM fun event =>
    let entry := LogEntry.ofEvent event
    session.log entry.level entry.target fun _ => event.message

/-- Goes on with a value, or stops with a failure. -/
def require {ε α : Type} (failure : ε → Failure) (result : Except ε α) :
    Action m α :=
  match result with
  | .ok value => pure value
  | .error error => throw (failure error)

def measurements (parseTime clauseTime solveTime : τ) :
    m Measurements := do
  let clock := session.host.clock
  let memory ← session.host.memory
  return {
    parseTime := clock.seconds parseTime
    clauseTime := clock.seconds clauseTime
    solveTime := clock.seconds solveTime
    rate := fun count => clock.rate count solveTime
    memory := memory }

/-- Checks an outcome, if the options ask for it, and stops where a check
fails. -/
def reportCheck (formula : Formula) (problem : Problem) (outcome : Outcome)
    (common : CommonOptions) : Action m Unit := do
  if common.verify then
    let finding ← require .unverified
      (verify formula problem.cnf problem.names outcome)
    session.printLine finding.message

def reportStatistics (problem : Problem) (statistics : Statistics)
    (parseTime clauseTime solveTime : τ) (common : CommonOptions) :
    m Unit := do
  if common.stats then
    let measured ← session.measurements parseTime clauseTime solveTime
    session.host.print (Report.table problem statistics measured)

/-- Prints the verdict, after the model if the options ask for it. -/
def reportVerdict (outcome : Outcome) (common : CommonOptions) : m Unit := do
  match outcome with
  | .satisfiable model =>
      if common.printSolution then
        session.printLine s!"Solution: {model}"
      session.printLine "SATISFIABLE"
  | .unsatisfiable => session.printLine "UNSATISFIABLE"

/-- Solves a formula, branching on the candidates, and reports on it. -/
def solveAndReport (formula : Formula) (candidates : List String)
    (label : String) (parseTime : τ) (common : CommonOptions) :
    Action m Outcome := do
  session.printLine s!"Solving: {label}"
  let (cnf, clauseTime) ← session.host.timed fun _ => formula.clauses
  let order := common.order.withSeed common.seed
  let problem : Problem := ⟨cnf, order.arrange candidates⟩
  session.log .debug commandTarget fun _ =>
    s!"{problem.names.length} variables, {cnf.size} clauses, " ++
      s!"{cnf.literalCount} literals"
  let ((outcome, state), solveTime) ← session.host.timed fun _ =>
    problem.solveFrom ∅ (.start 0)
  session.logEvents state.events
  session.reportCheck formula problem outcome common
  session.reportStatistics problem (state.statistics unitPropagation)
    parseTime clauseTime solveTime common
  session.reportVerdict outcome common
  return outcome

def formulaText (options : FormulaOptions) : Action m (String × String × τ) :=
  match options.input, options.path with
  | some text, _ => pure (text, "<input>", session.host.clock.zero)
  | none, some path => do
      let (result, time) ← session.host.readFile path
      let text ← require (.unreadable path) result
      return (text, path, time)
  | none, none => throw .noFormula

def solveFormula (options : FormulaOptions) : Action m Unit := do
  let (text, label, readTime) ← session.formulaText options
  let (result, parseTime) ← session.host.timed fun _ => Formula.parse text
  let formula ← require .malformed result
  session.log .info commandTarget fun _ =>
    s!"parsed formula with {formula.size} nodes"
  let time := session.host.clock.add readTime parseTime
  let _ ← session.solveAndReport formula formula.varsInOrder label time
    options.common

def solvePuzzle (puzzle : Sudoku.Puzzle) (label : String) (readTime : τ)
    (common : CommonOptions) : Action m Unit := do
  session.printLine s!"Parsed Sudoku:\n{puzzle.board}"
  let (formula, time) ← session.host.timed fun _ => puzzle.toFormula
  let parseTime := session.host.clock.add readTime time
  match ← session.solveAndReport formula puzzle.names label parseTime
      common with
  | .satisfiable model =>
      session.printLine s!"Solution:\n{puzzle.decode model}"
  | .unsatisfiable => session.printLine "No solution found"

def readPuzzle (text : String) : Except Sudoku.BoardError Sudoku.Puzzle :=
  match Sudoku.Board.parse text with
  | .ok board => Sudoku.Puzzle.ofBoard board
  | .error error => .error error

def solvePuzzleFile (path : String) (common : CommonOptions) :
    Action m Unit := do
  let (result, readTime) ← session.host.readFile path
  let text ← require (fun cause => .badPuzzleFile path (.unreadable cause))
    result
  let (result, parseTime) ← session.host.timed fun _ => readPuzzle text
  let puzzle ← require
    (fun cause => .badPuzzleFile path (.malformed cause)) result
  session.solvePuzzle puzzle path
    (session.host.clock.add readTime parseTime) common

/-- Solves the puzzles among what a walk has found, up to the first failure,
and skips everything else. -/
def solveWalk (common : CommonOptions) : List WalkEntry → Action m Unit
  | [] => pure ()
  | entry :: rest => do
      if entry.isFile && WalkEntry.hasExtension entry.path "sudoku" then
        session.solvePuzzleFile entry.path common
      else
        session.log .debug commandTarget fun _ => s!"Skipping {entry.path}"
      solveWalk common rest

def solveSudoku (options : SudokuOptions) : Action m Unit := do
  match options.path with
  | some path =>
      if ← session.host.isDirectory path then
        session.solveWalk options.common (← session.host.walk path)
      else session.solvePuzzleFile path options.common
  | none =>
      let builtIn := options.builtIn.getD .nine
      let puzzle ← require .badPuzzle
        (Sudoku.Puzzle.ofBoard builtIn.board)
      session.solvePuzzle puzzle builtIn.title session.host.clock.zero
        options.common

def crossCheck (number : Nat) (formula : Formula) (outcome : Outcome) :
    Action m Unit := do
  let table ← require .noTable (TruthTable.ofFormula formula)
  let expected := table.solve.1.isSat
  if expected ≠ outcome.isSat then
    throw (.disagreement number outcome.isSat expected formula)

/-- Solves `remaining` more random formulas, numbered from `number` on, and
puts them before those already solved, latest first. -/
def solveTrials (options : RandomOptions) (pool : List String) :
    (remaining number : Nat) → RandomSource → List Trial →
      Action m (List Trial)
  | 0, _, _, solved => pure solved
  | remaining + 1, number, source, solved => do
      let (formula, source) ← require .undrawable
        (Families.randomClauses source pool options.clauses options.width)
      let outcome ← session.solveAndReport formula pool
        s!"random {options.width}-SAT #{number}" session.host.clock.zero
        options.common
      if options.crossCheck then crossCheck number formula outcome
      solveTrials options pool remaining (number + 1) source
        (⟨formula, outcome⟩ :: solved)

def solveRandom (options : RandomOptions) : Action m (List Trial) := do
  if options.vars = 0 ∧
      Families.literalsWanted options.clauses options.width ≠ 0 then
    throw .noVariables
  let pool := Names.numbered "x" options.vars
  let solved ← session.solveTrials options pool options.trials 0
    ⟨options.common.seed⟩ []
  let satisfiable := solved.countP (·.outcome.isSat)
  session.printLine
    s!"{satisfiable} of {options.trials} formulas satisfiable"
  return solved.reverse

end Session

end PropSat.CommandLine
