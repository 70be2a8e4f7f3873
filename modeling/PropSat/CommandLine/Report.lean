import PropSat.Search
import PropSat.Text.Column

/-!
# The table of statistics

The table that follows a solve: the size of the problem, what the search
counted, and what it took.  Times, rates and memory are measured elsewhere and
come as texts.
-/

namespace PropSat.CommandLine

structure Measurements where
  parseTime : String
  clauseTime : String
  solveTime : String
  rate : Nat → String
  /-- Mebibytes in use and resident, where they are known. -/
  memory : Option (String × String)

namespace Report

def line (label value : String) : String :=
  s!"|  {Text.padRight 28 label} {Text.padLeft 18 value}  |\n"

def rateLine (label : String) (count : Nat) (rate : String) : String :=
  let value := Text.padLeft 12 (toString count)
  s!"|  {Text.padRight 20 label} {value} ({Text.padLeft 9 rate}/sec)  |\n"

def memoryLines : Option (String × String) → String
  | none => ""
  | some (used, resident) =>
      line "Memory usage (MiB)" used ++ line "Resident memory (MiB)" resident

/-- The table of a problem and its search, after an empty line. -/
def table (problem : Problem) (statistics : Statistics)
    (measured : Measurements) : String :=
  "\n=======================[ Problem Statistics ]" ++
    "=========================\n" ++
  line "Parse time (s)" measured.parseTime ++
  line "Translate time (s)" measured.clauseTime ++
  line "Variables" (toString problem.names.length) ++
  line "Clauses" (toString problem.cnf.size) ++
  line "Literals" (toString problem.cnf.literalCount) ++
  "========================[ Search Statistics ]" ++
    "========================\n" ++
  rateLine "Conflicts" statistics.conflicts
    (measured.rate statistics.conflicts) ++
  rateLine "Decisions" statistics.decisions
    (measured.rate statistics.decisions) ++
  rateLine "Propagations" statistics.propagations
    (measured.rate statistics.propagations) ++
  line "Max depth" (toString statistics.maxDepth) ++
  memoryLines measured.memory ++
  line "CPU time (s)" measured.solveTime ++
  "=============================================" ++
    "========================\n"

end Report

end PropSat.CommandLine
