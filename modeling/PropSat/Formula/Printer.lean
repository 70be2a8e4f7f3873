import PropSat.Formula.Basic

/-!
# Writing formulas

The written form of a formula, which `Formula.parse` reads back when every
atom has a name that reads as one.
-/

namespace PropSat.Formula

mutual

/-- A formula with its connectives first, between parentheses, and single
spaces before the operands. -/
def render : Formula → String
  | .const value => toString value
  | .atom name => name
  | .neg operand => "(not " ++ operand.render ++ ")"
  | .conj operands => "(and" ++ String.join (renderOperands operands) ++ ")"
  | .disj operands => "(or" ++ String.join (renderOperands operands) ++ ")"

def renderOperands : List Formula → List String
  | [] => []
  | operand :: rest => (" " ++ operand.render) :: renderOperands rest

end

instance : ToString Formula := ⟨render⟩

end PropSat.Formula
