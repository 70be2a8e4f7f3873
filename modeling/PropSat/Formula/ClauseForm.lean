import PropSat.Formula.Basic

/-!
# The clause form of a formula

`Formula.clauses` needs no new variables: an atom or its negation is one
clause of one literal, a conjunction joins the clause sets of its operands, a
disjunction picks one clause from each in all possible ways, and a negation of
anything else is pushed inwards first.  Pushing can make the tree larger, so
the recursion is on a weight that counts what is under a negation twice.

`Formula.polarityClauses` reads the same clauses off the tree in one pass,
carrying along whether an odd number of negations is above.
-/

namespace PropSat

namespace Formula

mutual

/-- The measure that every step towards the clause form lowers. -/
def weight : Formula → Nat
  | .const _ => 1
  | .atom _ => 1
  | .neg operand => 2 * operand.weight
  | .conj operands => 1 + weightList operands
  | .disj operands => 1 + weightList operands

def weightList : List Formula → Nat
  | [] => 0
  | operand :: rest => operand.weight + weightList rest

end

theorem weight_pos : (formula : Formula) → 0 < formula.weight
  | .const _ => Nat.one_pos
  | .atom _ => Nat.one_pos
  | .neg operand => Nat.mul_pos Nat.two_pos operand.weight_pos
  | .conj _ => Nat.lt_add_right _ Nat.one_pos
  | .disj _ => Nat.lt_add_right _ Nat.one_pos

theorem weight_le_weightList {operand : Formula} {operands : List Formula}
    (member : operand ∈ operands) :
    operand.weight ≤ weightList operands := by
  induction operands with
  | nil => simp at member
  | cons first rest induction =>
      simp only [weightList]
      rcases List.mem_cons.mp member with rfl | later
      · omega
      · have below := induction later
        omega

theorem weightList_map_neg (operands : List Formula) :
    weightList (operands.map .neg) = 2 * weightList operands := by
  induction operands with
  | nil => rfl
  | cons first rest induction =>
      simp only [List.map_cons, weightList, weight, induction]
      omega

def atomName? : Formula → Option String
  | .atom name => some name
  | .const _ => none
  | .neg _ => none
  | .conj _ => none
  | .disj _ => none

/-- Pushing a negation inwards lowers the weight, except at an atom. -/
theorem weight_pushNegation_lt {operand : Formula}
    (compound : operand.atomName? = none) :
    operand.pushNegation.weight < (neg operand).weight := by
  cases operand with
  | const value => simp [pushNegation, weight]
  | atom name => cases compound
  | neg inner =>
      have positive := inner.weight_pos
      simp only [pushNegation, weight]
      omega
  | conj operands =>
      simp only [pushNegation, weight, weightList_map_neg]
      omega
  | disj operands =>
      simp only [pushNegation, weight, weightList_map_neg]
      omega

def clauses : Formula → Cnf
  | .const true => ∅
  | .const false => .contradiction
  | .atom name => .unit (.positive name)
  | .neg operand =>
      match _compound : operand.atomName? with
      | some name => .unit (.negative name)
      | none => operand.pushNegation.clauses
  | .conj operands => .conjoin (operands.attach.map fun ⟨sub, _⟩ => sub.clauses)
  | .disj operands => .disjoin (operands.attach.map fun ⟨sub, _⟩ => sub.clauses)
  termination_by formula => formula.weight
  decreasing_by
    · exact weight_pushNegation_lt _compound
    · simp only [weight]
      have below := weight_le_weightList ‹_›
      omega
    · simp only [weight]
      have below := weight_le_weightList ‹_›
      omega

mutual

/-- The clauses of a formula, or of its negation where `positive` is false,
in one pass over the tree. -/
def polarityClauses (positive : Bool) : Formula → Cnf
  | .const value => if value = positive then ∅ else .contradiction
  | .atom name => .unit ⟨name, positive⟩
  | .neg operand => operand.polarityClauses !positive
  | .conj operands =>
      if positive then .conjoin (polarityClausesList positive operands)
      else .disjoin (polarityClausesList positive operands)
  | .disj operands =>
      if positive then .disjoin (polarityClausesList positive operands)
      else .conjoin (polarityClausesList positive operands)

def polarityClausesList (positive : Bool) : List Formula → List Cnf
  | [] => []
  | operand :: rest =>
      operand.polarityClauses positive :: polarityClausesList positive rest

end

end Formula

end PropSat
