import PropSat.Literal

/-!
# Clauses

A clause is a disjunction of literals, kept in the order in which they were
given and with repeats.  Under a valuation that need not assign every variable
a clause is in one of four states; `Clause.status` finds which, and for a
clause with a single way left to become true it also names that literal.
-/

namespace PropSat

structure Clause where
  literals : List Literal
  deriving DecidableEq, Inhabited

/-- The state of a clause under a valuation. -/
inductive Status where
  | satisfied
  | falsified
  /-- The given literal occurrence is unassigned and all others are false. -/
  | unit (literal : Literal)
  /-- No literal is true and two or more occurrences are unassigned. -/
  | undetermined
  deriving DecidableEq

namespace Clause

def empty : Clause := ⟨[]⟩

def unit (literal : Literal) : Clause := ⟨[literal]⟩

def size (clause : Clause) : Nat := clause.literals.length

def names (clause : Clause) : List String :=
  clause.literals.map Literal.name

def isEmpty (clause : Clause) : Bool := clause.literals.isEmpty

def append (first second : Clause) : Clause :=
  ⟨first.literals ++ second.literals⟩

instance : Append Clause := ⟨append⟩

def concat (clauses : List Clause) : Clause :=
  ⟨clauses.flatMap literals⟩

def isSatisfiedBy (clause : Clause) (valuation : Valuation) : Bool :=
  clause.literals.any fun literal => literal.value? valuation == some true

/-- The state of a list of literals read as a disjunction.  A true literal
settles it, a false one changes nothing, and an unassigned one is the unit
literal exactly when all that follows is false. -/
def statusOf (valuation : Valuation) : List Literal → Status
  | [] => .falsified
  | literal :: rest =>
      match literal.value? valuation with
      | some true => .satisfied
      | some false => statusOf valuation rest
      | none =>
          match statusOf valuation rest with
          | .satisfied => .satisfied
          | .falsified => .unit literal
          | .unit _ => .undetermined
          | .undetermined => .undetermined

def status (clause : Clause) (valuation : Valuation) : Status :=
  statusOf valuation clause.literals

def render (clause : Clause) : String :=
  "(" ++ " | ".intercalate (clause.literals.map Literal.render) ++ ")"

instance : ToString Clause := ⟨render⟩

/-- Clauses are ordered as lists of literals: at the first literal in which
they differ, and a proper initial part before the longer clause. -/
instance : Ord Clause where
  compare left right := compare left.literals right.literals

/-- The literal of a unit list of literals occurs in it and is unassigned. -/
theorem mem_of_statusOf_eq_unit {valuation : Valuation} {literal : Literal}
    {literals : List Literal}
    (isUnit : statusOf valuation literals = .unit literal) :
    literal ∈ literals ∧ literal.value? valuation = none := by
  induction literals with
  | nil => simp [statusOf] at isUnit
  | cons first rest induction =>
      unfold statusOf at isUnit
      split at isUnit
      · exact absurd isUnit (by simp)
      · have found := induction isUnit
        exact ⟨List.mem_cons_of_mem _ found.1, found.2⟩
      · next unassigned =>
          split at isUnit <;> cases isUnit
          exact ⟨List.mem_cons_self, unassigned⟩

end Clause

end PropSat
