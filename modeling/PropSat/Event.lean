import PropSat.Cnf

/-!
# Events of a search

What a search does is recorded as data, in the order in which it happens, and
turned into text only where somebody wants to read it.
-/

namespace PropSat

/-- How much attention a message asks for, from most to least. -/
inductive Level where
  | error
  | warn
  | info
  | debug
  | trace
  deriving DecidableEq, Inhabited

namespace Level

/-- Position of a level; a limit admits the levels that are not above it. -/
def rank : Level → Nat
  | .error => 1
  | .warn => 2
  | .info => 3
  | .debug => 4
  | .trace => 5

def name : Level → String
  | .error => "ERROR"
  | .warn => "WARN"
  | .info => "INFO"
  | .debug => "DEBUG"
  | .trace => "TRACE"

def passes (level limit : Level) : Bool := level.rank ≤ limit.rank

end Level

inductive Event where
  | forces (clause : Clause) (literal : Literal)
  | falsifies (clause : Clause)
  | tries (depth : Nat) (name : String) (value : Bool)
  | fails (depth : Nat)
  /-- A search is over; the counts are those of all searches so far. -/
  | ends (satisfiable : Bool) (decisions conflicts : Nat)
  deriving DecidableEq

namespace Event

/-- Decisions and verdicts matter more than single inferences. -/
def level : Event → Level
  | .forces .. => .trace
  | .falsifies .. => .trace
  | .tries .. => .debug
  | .fails .. => .trace
  | .ends .. => .debug

def isInference : Event → Bool
  | .forces .. => true
  | .falsifies .. => true
  | .tries .. => false
  | .fails .. => false
  | .ends .. => false

def message : Event → String
  | .forces clause literal => s!"{clause} forces {literal}"
  | .falsifies clause => s!"conflict on {clause}"
  | .tries depth name value => s!"depth {depth}: try {name} = {value}"
  | .fails depth => s!"conflict at depth {depth}"
  | .ends satisfiable decisions conflicts =>
      let verdict := if satisfiable then "SAT" else "UNSAT"
      s!"{verdict} after {decisions} decisions, {conflicts} conflicts"

end Event

end PropSat
