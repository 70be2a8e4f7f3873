import PropSat.Cnf

/-!
# Propositional formulas

A formula is a tree over negation, conjunction and disjunction of any number
of operands, with named atoms and the two constants at the leaves.
Implication and equivalence are written with these.

Since an operand list is part of the tree, every function on formulas comes
with its counterpart on lists of formulas.
-/

namespace PropSat

inductive Formula where
  | const (value : Bool)
  | atom (name : String)
  | neg (operand : Formula)
  /-- Conjunction; without operands it is true. -/
  | conj (operands : List Formula)
  /-- Disjunction; without operands it is false. -/
  | disj (operands : List Formula)
  deriving Inhabited

namespace Formula

mutual

def decEq : (left right : Formula) → Decidable (left = right)
  | .const a, .const b =>
      if same : a = b then isTrue (by rw [same])
      else isFalse fun equal => same (Formula.const.inj equal)
  | .atom a, .atom b =>
      if same : a = b then isTrue (by rw [same])
      else isFalse fun equal => same (Formula.atom.inj equal)
  | .neg a, .neg b =>
      match decEq a b with
      | isTrue same => isTrue (by rw [same])
      | isFalse other => isFalse fun equal => other (Formula.neg.inj equal)
  | .conj a, .conj b =>
      match decEqList a b with
      | isTrue same => isTrue (by rw [same])
      | isFalse other => isFalse fun equal => other (Formula.conj.inj equal)
  | .disj a, .disj b =>
      match decEqList a b with
      | isTrue same => isTrue (by rw [same])
      | isFalse other => isFalse fun equal => other (Formula.disj.inj equal)
  | .const _, .atom _ => isFalse nofun
  | .const _, .neg _ => isFalse nofun
  | .const _, .conj _ => isFalse nofun
  | .const _, .disj _ => isFalse nofun
  | .atom _, .const _ => isFalse nofun
  | .atom _, .neg _ => isFalse nofun
  | .atom _, .conj _ => isFalse nofun
  | .atom _, .disj _ => isFalse nofun
  | .neg _, .const _ => isFalse nofun
  | .neg _, .atom _ => isFalse nofun
  | .neg _, .conj _ => isFalse nofun
  | .neg _, .disj _ => isFalse nofun
  | .conj _, .const _ => isFalse nofun
  | .conj _, .atom _ => isFalse nofun
  | .conj _, .neg _ => isFalse nofun
  | .conj _, .disj _ => isFalse nofun
  | .disj _, .const _ => isFalse nofun
  | .disj _, .atom _ => isFalse nofun
  | .disj _, .neg _ => isFalse nofun
  | .disj _, .conj _ => isFalse nofun

def decEqList : (left right : List Formula) → Decidable (left = right)
  | [], [] => isTrue rfl
  | [], _ :: _ => isFalse nofun
  | _ :: _, [] => isFalse nofun
  | a :: as, b :: bs =>
      match decEq a b with
      | isFalse other => isFalse fun equal => other (List.cons.inj equal).1
      | isTrue first =>
          match decEqList as bs with
          | isFalse other => isFalse fun equal => other (List.cons.inj equal).2
          | isTrue rest => isTrue (by rw [first, rest])

end

instance : DecidableEq Formula := decEq

def implies (first second : Formula) : Formula :=
  .disj [.neg first, second]

def iff (first second : Formula) : Formula :=
  .conj [implies first second, implies second first]

mutual

def size : Formula → Nat
  | .const _ => 1
  | .atom _ => 1
  | .neg operand => 1 + operand.size
  | .conj operands => 1 + sizeList operands
  | .disj operands => 1 + sizeList operands

def sizeList : List Formula → Nat
  | [] => 0
  | operand :: rest => operand.size + sizeList rest

end

mutual

/-- The name of every atom occurrence, from left to right. -/
def atoms : Formula → List String
  | .const _ => []
  | .atom name => [name]
  | .neg operand => operand.atoms
  | .conj operands => atomsList operands
  | .disj operands => atomsList operands

def atomsList : List Formula → List String
  | [] => []
  | operand :: rest => operand.atoms ++ atomsList rest

end

def vars (formula : Formula) : NameSet :=
  .ofList formula.atoms

/-- The names of the atoms, each once, in the order in which they first
occur. -/
def varsInOrder (formula : Formula) : List String :=
  Names.distinct formula.atoms

/-- The negation of a formula, pushed inwards by one level: a constant is
flipped, a double negation dropped, and the negation of a conjunction or a
disjunction moves to its operands, exchanging the two.  An atom is wrapped. -/
def pushNegation : Formula → Formula
  | .const value => .const !value
  | .atom name => .neg (.atom name)
  | .neg operand => operand
  | .conj operands => .disj (operands.map .neg)
  | .disj operands => .conj (operands.map .neg)

end Formula

end PropSat
