import PropSat.Formula.Basic
import PropSat.Random
import PropSat.Text.Numeral

/-!
# Families of formulas

Formulas to try a solver on: random conjunctions of clauses of one length, and
chains of equivalences.  A chain with both ends fixed is satisfiable exactly
when the number of its links that flip the value fits the ends, which
`chainWithEndsIsSat` computes without a search.
-/

namespace PropSat

inductive DrawError where
  | emptyPool
  /-- A literal is drawn from no variable, because the number of literals
  asked for seemed to be zero in 64 bits. -/
  | emptyRange
  deriving DecidableEq

def DrawError.message : DrawError → String
  | .emptyPool => "cannot draw literals from an empty variable pool"
  | .emptyRange => "cannot draw a literal from an empty range"

namespace Families

section Random

variable {σ : Type} [Generator σ]

/-- A variable of the pool, negated by the toss of a coin. -/
def randomLiteral (pool : Array String) (filled : 0 < pool.size)
    (source : σ) : Formula × σ :=
  let draw := Generator.below filled source
  let toss := Generator.coin draw.2
  let atom := Formula.atom pool[draw.1]
  (if toss.1 then .neg atom else atom, toss.2)

def randomClause (pool : Array String) (filled : 0 < pool.size) (width : Nat)
    (source : σ) : Formula × σ :=
  let (literals, source) :=
    Generator.drawMany (randomLiteral pool filled) width source
  (.disj literals, source)

/-- Number of literals of `count` clauses of one width, as a product of
64 bits, which wraps. -/
def literalsWanted (count width : Nat) : Nat :=
  count * width % Text.wordLimit

def randomClauses (source : σ) (pool : List String) (count width : Nat) :
    Except DrawError (Formula × σ) :=
  let names := pool.toArray
  if filled : 0 < names.size then
    let (clauses, source) :=
      Generator.drawMany (randomClause names filled width) count source
    .ok (.conj clauses, source)
  else if literalsWanted count width ≠ 0 then .error .emptyPool
  else if count ≠ 0 ∧ width ≠ 0 then .error .emptyRange
  else .ok (.conj (List.replicate count (.disj [])), source)

end Random

def fixed (formula : Formula) (value : Bool) : Formula :=
  if value then formula else .neg formula

def chainAtoms (length : Nat) : List Formula :=
  (Names.numbered "a" length).map .atom

/-- Neighbouring atoms have equal values all along the chain, and the first
one has the given value. -/
def chain (length : Nat) (first : Bool) : Formula :=
  let atoms := chainAtoms length
  let links := (atoms.zip atoms.tail).map fun pair =>
    Formula.iff pair.1 pair.2
  .conj (links ++ atoms.head?.toList.map (fixed · first))

def alternatingLink (position : Nat) (left right : Formula) : Formula :=
  .iff left (if position % 2 = 1 then .neg right else right)

def chainWithEnds (length : Nat) (first last : Bool) : Formula :=
  let atoms := chainAtoms length
  let links := (atoms.zip atoms.tail).zipIdx.map fun entry =>
    alternatingLink entry.2 entry.1.1 entry.1.2
  .conj (links ++ atoms.head?.toList.map (fixed · first) ++
    atoms.getLast?.toList.map (fixed · last))

/-- Whether a chain with both ends fixed is satisfiable: every second link
flips the value, so the ends differ exactly when the flips are odd in
number. -/
def chainWithEndsIsSat (length : Nat) (first last : Bool) : Bool :=
  if length = 0 then true
  else
    let flips := (length - 1) / 2
    (first != last) == (flips % 2 == 1)

end Families

end PropSat
