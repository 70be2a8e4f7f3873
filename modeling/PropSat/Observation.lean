import PropSat.Search

/-!
# Watched and scripted searches

Two propagators for looking at a search from outside.  A recording propagator
answers as another one does and notes every call.  A scripted one gives the
answers of a list, whatever it is asked, and shows what the search makes of
them.
-/

namespace PropSat

structure Node where
  before : Valuation
  result : Propagation
  /-- Number of literals forced up to and including this call. -/
  propagations : Nat

namespace Propagator

variable {σ : Type}

/-- Answers as `propagator` does and keeps a list of the calls. -/
def recording (propagator : Propagator σ) :
    Propagator (σ × Array Node) where
  propagate cnf valuation state :=
    let inference := propagator.propagate cnf valuation state.1
    let node : Node :=
      { before := valuation
        result := inference.result
        propagations := propagator.propagations inference.state }
    { result := inference.result
      state := (inference.state, state.2.push node)
      events := inference.events }
  propagations state := propagator.propagations state.1

/-- Gives the answers of a list one after another, and a conflict for ever
after the last.  A search enters no more levels than the list is long and one,
since each of them uses up an answer. -/
def scripted : Propagator (List Propagation) where
  propagate _ _ script :=
    match script with
    | [] => { result := .conflict, state := [], events := #[] }
    | answer :: rest => { result := answer, state := rest, events := #[] }
  propagations _ := 0

theorem recording_isMonotone {propagator : Propagator σ}
    (monotone : propagator.IsMonotone) : propagator.recording.IsMonotone :=
  fun cnf valuation state extended consistent =>
    monotone cnf valuation state.1 extended consistent

end Propagator

end PropSat
