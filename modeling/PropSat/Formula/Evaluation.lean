import PropSat.Formula.Basic

/-!
# Truth values of formulas

`Formula.evaluate` works from left to right and looks at no more operands than
it needs, so that it can succeed although some atom has no value; when it
needs the value of such an atom, it names it.

`Formula.kleene?` is the value in three-valued logic, where an unassigned atom
is unknown and the order of operands does not matter: a conjunction with a
false operand is false even if an operand to its left is unknown.
-/

namespace PropSat

/-- The failure of an evaluation that needed the value of an unassigned
atom. -/
structure UnassignedVariable where
  name : String
  deriving DecidableEq

def UnassignedVariable.message (failure : UnassignedVariable) : String :=
  s!"variable `{failure.name}` is not assigned"

def Kleene.not : Option Bool → Option Bool
  | some value => some !value
  | none => none

def Kleene.and : Option Bool → Option Bool → Option Bool
  | some false, _ => some false
  | _, some false => some false
  | some true, some true => some true
  | _, _ => none

def Kleene.or : Option Bool → Option Bool → Option Bool
  | some true, _ => some true
  | _, some true => some true
  | some false, some false => some false
  | _, _ => none

namespace Formula

mutual

def evaluate (valuation : Valuation) :
    Formula → Except UnassignedVariable Bool
  | .const value => .ok value
  | .atom name =>
      match valuation.get? name with
      | some value => .ok value
      | none => .error ⟨name⟩
  | .neg operand =>
      match operand.evaluate valuation with
      | .ok value => .ok !value
      | .error failure => .error failure
  | .conj operands => evaluateAll valuation operands
  | .disj operands => evaluateAny valuation operands

/-- Whether all formulas of a list are true, up to the first false one. -/
def evaluateAll (valuation : Valuation) :
    List Formula → Except UnassignedVariable Bool
  | [] => .ok true
  | operand :: rest =>
      match operand.evaluate valuation with
      | .ok true => evaluateAll valuation rest
      | .ok false => .ok false
      | .error failure => .error failure

def evaluateAny (valuation : Valuation) :
    List Formula → Except UnassignedVariable Bool
  | [] => .ok false
  | operand :: rest =>
      match operand.evaluate valuation with
      | .ok true => .ok true
      | .ok false => evaluateAny valuation rest
      | .error failure => .error failure

end

mutual

/-- The truth value of a formula in three-valued logic. -/
def kleene? (valuation : Valuation) : Formula → Option Bool
  | .const value => some value
  | .atom name => valuation.get? name
  | .neg operand => Kleene.not (operand.kleene? valuation)
  | .conj operands => kleeneAll? valuation operands
  | .disj operands => kleeneAny? valuation operands

def kleeneAll? (valuation : Valuation) : List Formula → Option Bool
  | [] => some true
  | operand :: rest =>
      Kleene.and (operand.kleene? valuation) (kleeneAll? valuation rest)

def kleeneAny? (valuation : Valuation) : List Formula → Option Bool
  | [] => some false
  | operand :: rest =>
      Kleene.or (operand.kleene? valuation) (kleeneAny? valuation rest)

end

end Formula

end PropSat
