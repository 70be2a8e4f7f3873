import PropSat.Formula.Evaluation
import PropSat.Search

/-!
# Checking an outcome

A model that a search found is checked against everything it was to satisfy:
the variables, the clauses, and the formula that the clauses come from.
-/

namespace PropSat

inductive Verified where
  | nothingToCheck
  | confirmed
  deriving DecidableEq

def Verified.message : Verified → String
  | .nothingToCheck => "Verified: nothing to check (UNSAT)"
  | .confirmed => "Verified: true"

/-- The first check that a model failed. -/
inductive VerificationFailure where
  | incomplete
  | falsifiesClause
  | falsifiesFormula
  | cannotEvaluate (cause : UnassignedVariable)
  deriving DecidableEq

def VerificationFailure.message : VerificationFailure → String
  | .incomplete => "model does not assign every variable"
  | .falsifiesClause => "model falsifies a clause"
  | .falsifiesFormula => "model falsifies the formula"
  | .cannotEvaluate cause =>
      s!"model cannot evaluate the formula: {cause.message}"

/-- Checks the model of an outcome, if it has one, first for the variables,
then for the clauses, then for the formula. -/
def verify (formula : Formula) (cnf : Cnf) (names : List String)
    (outcome : Outcome) : Except VerificationFailure Verified :=
  match outcome with
  | .unsatisfiable => .ok .nothingToCheck
  | .satisfiable model =>
      if !model.isTotalOver names then .error .incomplete
      else if !cnf.isSatisfiedBy model then .error .falsifiesClause
      else
        match formula.evaluate model with
        | .ok true => .ok .confirmed
        | .ok false => .error .falsifiesFormula
        | .error cause => .error (.cannotEvaluate cause)

end PropSat
