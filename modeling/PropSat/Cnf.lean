import PropSat.Clause
import PropSat.Names

/-!
# Clause sets

A clause set is a conjunction of clauses in a fixed order.  `Cnf.disjoin` is
the clause form of a disjunction of clause sets: one clause for each way of
picking a clause from every set.
-/

namespace PropSat

structure Cnf where
  clauses : List Clause
  deriving DecidableEq, Inhabited

namespace Cnf

def empty : Cnf := ⟨[]⟩

instance : EmptyCollection Cnf := ⟨empty⟩

def contradiction : Cnf := ⟨[.empty]⟩

def unit (literal : Literal) : Cnf := ⟨[.unit literal]⟩

def size (cnf : Cnf) : Nat := cnf.clauses.length

def isEmpty (cnf : Cnf) : Bool := cnf.clauses.isEmpty

def push (cnf : Cnf) (clause : Clause) : Cnf := ⟨cnf.clauses ++ [clause]⟩

def append (first second : Cnf) : Cnf := ⟨first.clauses ++ second.clauses⟩

instance : Append Cnf := ⟨append⟩

def conjoin (sets : List Cnf) : Cnf := ⟨sets.flatMap clauses⟩

def names (cnf : Cnf) : List String := cnf.clauses.flatMap Clause.names

def literalCount (cnf : Cnf) : Nat := cnf.names.length

def vars (cnf : Cnf) : NameSet := .ofList cnf.names

/-- Whether the valuation makes some literal of every clause true.  A clause
whose literals are all false or unassigned is not satisfied. -/
def isSatisfiedBy (cnf : Cnf) (valuation : Valuation) : Bool :=
  cnf.clauses.all (·.isSatisfiedBy valuation)

/-- One clause for each way of picking a clause from every list; the choice
from the last list varies fastest. -/
def choices : List (List Clause) → List Clause
  | [] => [.empty]
  | options :: rest =>
      let tails := choices rest
      options.flatMap fun first => tails.map (first ++ ·)

/-- The clause form of a disjunction of clause sets.  When one of them has no
clause the disjunction is true, and nothing needs to be picked. -/
def disjoin (sets : List Cnf) : Cnf :=
  if sets.any isEmpty then ∅ else ⟨choices (sets.map clauses)⟩

def render (cnf : Cnf) : String :=
  String.join (cnf.clauses.map fun clause => clause.render ++ "\n")

instance : ToString Cnf := ⟨render⟩

theorem mem_vars_iff {cnf : Cnf} {name : String} :
    name ∈ cnf.vars.toList ↔ name ∈ cnf.names :=
  NameSet.mem_toList_ofList

theorem choices_eq_nil_of_mem {lists : List (List Clause)}
    (member : [] ∈ lists) : choices lists = [] := by
  induction lists with
  | nil => simp at member
  | cons options rest induction =>
      rcases List.mem_cons.mp member with first | later
      · simp [choices, ← first]
      · simp [choices, induction later]

/-- The early answer for a set without clauses is the one that picking gives. -/
theorem clauses_disjoin (sets : List Cnf) :
    (disjoin sets).clauses = choices (sets.map clauses) := by
  unfold disjoin
  split
  · next someEmpty =>
      rw [choices_eq_nil_of_mem]
      · rfl
      · rcases List.any_eq_true.mp someEmpty with ⟨set, member, isEmpty⟩
        exact List.mem_map.mpr ⟨set, member, List.isEmpty_iff.mp isEmpty⟩
  · rfl

end Cnf

end PropSat
