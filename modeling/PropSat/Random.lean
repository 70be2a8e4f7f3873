/-!
# Pseudo-random draws

Numbers below a limit and coins are drawn from a generator, one after another,
and what is drawn many times or shuffled only needs a generator of some kind.
All that is known of such a number is that it is below its limit.

The generator in use has 64 bits: the state moves on by a fixed odd number,
and a word is mixed from the two halves of the product of the new state with a
masked copy of itself.  All arithmetic wraps, so the draws depend on the seed
alone.  A word is brought below a limit by multiplying and keeping the upper
half.  Words whose lower half falls under a threshold are drawn again, which
leaves the same number of words for every value.
-/

namespace PropSat

/-- A generator with states in `σ`.  By its type a number that is drawn is
below the limit, and nothing else is asked of the draws. -/
class Generator (σ : Type) where
  ofSeed : UInt64 → σ
  below : {limit : Nat} → 0 < limit → σ → Fin limit × σ
  coin : σ → Bool × σ

namespace Generator

section Draws

variable {α σ : Type} (draw : σ → α × σ)

/-- Puts the results of `count` draws before those already made, latest
first. -/
def drawOnto : Nat → List α → σ → List α × σ
  | 0, drawn, source => (drawn, source)
  | count + 1, drawn, source =>
      let (value, later) := draw source
      drawOnto count (value :: drawn) later

def drawMany (count : Nat) (source : σ) : List α × σ :=
  let (drawn, later) := drawOnto draw count [] source
  (drawn.reverse, later)

end Draws

variable {α σ : Type} [Generator σ]

/-- Exchanges the value at a position with one that is drawn among those up
to it. -/
def shuffleStep (state : Array α × σ) (position : Nat) : Array α × σ :=
  let draw := below (Nat.succ_pos position) state.2
  (state.1.swapIfInBounds position draw.1, draw.2)

/-- A list in a random order: each position but the first is exchanged in
turn. -/
def shuffle (values : List α) (source : σ) : List α × σ :=
  let positions := List.range' 1 (values.length - 1)
  let (shuffled, later) :=
    positions.foldl shuffleStep (values.toArray, source)
  (shuffled.toList, later)

end Generator

structure RandomSource where
  state : UInt64
  deriving DecidableEq

namespace RandomSource

def increment : UInt64 := 0x2d358dccaa6c78a5

def mask : UInt64 := 0x8bb84b93962eacc9

def nextWord (source : RandomSource) : UInt64 × RandomSource :=
  let state := source.state + increment
  let product := state.toNat * (state ^^^ mask).toNat
  (product.toUInt64 ^^^ (product / UInt64.size).toUInt64, ⟨state⟩)

def scale {limit : Nat} (positive : 0 < limit) (word : UInt64) : Fin limit :=
  ⟨word.toNat * limit / UInt64.size, by
    apply Nat.div_lt_of_lt_mul
    exact Nat.mul_lt_mul_of_pos_right word.toNat_lt_size positive⟩

/-- A number below a limit, drawn again at most as often as the second
argument says while the lower half of the product is under the threshold. -/
def belowWithin {limit : Nat} (positive : 0 < limit) :
    Nat → RandomSource → Fin limit × RandomSource
  | 0, source =>
      let (word, later) := source.nextWord
      (scale positive word, later)
  | redraws + 1, source =>
      let (word, later) := source.nextWord
      if word.toNat * limit % UInt64.size < UInt64.size % limit then
        belowWithin positive redraws later
      else (scale positive word, later)

/-- A number below a limit of at most 64 bits, each equally likely.  The state
takes all of its 2^64 values before the first one comes back, so a draw that
has not ended after that many words never would. -/
def below {limit : Nat} (positive : 0 < limit) (source : RandomSource) :
    Fin limit × RandomSource :=
  belowWithin positive UInt64.size source

def coin (source : RandomSource) : Bool × RandomSource :=
  let (word, later) := source.nextWord
  (word % 2 == 0, later)

instance : Generator RandomSource := ⟨mk, below, coin⟩

end RandomSource

end PropSat
