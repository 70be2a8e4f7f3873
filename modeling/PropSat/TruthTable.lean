import PropSat.Formula.Evaluation
import PropSat.Search

/-!
# Truth tables

The reference decision procedure: try every valuation of the variables.  A
formula is evaluated as it stands, so its table shares nothing with its clause
form.

The rows are numbered in binary, the first variable being the lowest digit,
and looked at in the order of their numbers.
-/

namespace PropSat

inductive TruthTable.Target where
  | formula (tree : Formula)
  | cnf (set : Cnf)

structure TruthTable where
  target : TruthTable.Target
  /-- Its variables by increasing name. -/
  names : List String
  /-- Rows looked at in all searches so far. -/
  rows : Nat

namespace TruthTable

def maxVariables : Nat := 24

structure TooLarge where
  count : Nat
  deriving DecidableEq

def TooLarge.message (refusal : TooLarge) : String :=
  s!"truth table over {refusal.count} variables " ++
    s!"exceeds the limit of {maxVariables}"

/-- Whether a total valuation makes the target true. -/
def Target.holds (target : Target) (valuation : Valuation) : Bool :=
  match target with
  | .formula tree =>
      match tree.evaluate valuation with
      | .ok value => value
      | .error _ => false
  | .cnf set => set.isSatisfiedBy valuation

def Target.vars : Target → NameSet
  | .formula tree => tree.vars
  | .cnf set => set.vars

def ofTarget (target : Target) : Except TooLarge TruthTable :=
  let names := target.vars.toList
  if maxVariables < names.length then .error ⟨names.length⟩
  else .ok { target := target, names := names, rows := 0 }

def ofFormula (formula : Formula) : Except TooLarge TruthTable :=
  ofTarget (.formula formula)

def ofCnf (cnf : Cnf) : Except TooLarge TruthTable :=
  ofTarget (.cnf cnf)

def rowValuation (names : List String) (row : Nat) : Valuation :=
  .ofList (names.zipIdx.map fun entry => (entry.1, row.testBit entry.2))

/-- The first of `remaining` rows from `row` on in which the target holds. -/
def firstModel (table : TruthTable) :
    (remaining row : Nat) → Option (Nat × Valuation)
  | 0, _ => none
  | remaining + 1, row =>
      let valuation := rowValuation table.names row
      if table.target.holds valuation then some (row, valuation)
      else firstModel table remaining (row + 1)

/-- Looks for the first row in which the target holds, and counts the rows
looked at. -/
def solve (table : TruthTable) : Outcome × TruthTable :=
  let size := Nat.pow 2 table.names.length
  match table.firstModel size 0 with
  | some (row, model) =>
      (.satisfiable model, { table with rows := table.rows + row + 1 })
  | none => (.unsatisfiable, { table with rows := table.rows + size })

def statistics (table : TruthTable) : Statistics where
  decisions := table.rows
  propagations := 0
  conflicts := 0
  maxDepth := 0

end TruthTable

end PropSat
