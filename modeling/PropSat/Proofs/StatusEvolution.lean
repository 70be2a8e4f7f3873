import PropSat.Proofs.ClauseStatus

/-!
# How the status of a clause evolves

While a valuation grows, what is settled about a clause stays settled.  A
unit clause follows its one open literal from then on, and the order of the
literals never matters.

The status can also be found in one pass that stops at a true literal and
otherwise counts the open literals, with the last of them at hand.  For as
long as the pass goes on, its two variables say how many literals are open
among those behind it and which is the last of these.  With no true literal
among them, the open ones alone decide the status.
-/

namespace PropSat

/-- The status of a clause without a true literal, by its open ones. -/
def Status.ofOpen : List Literal → Status
  | [] => .falsified
  | [literal] => .unit literal
  | _ :: _ :: _ => .undetermined

/-- The status that a pass without a true literal ends with, by the number of
open literals and the last of them. -/
def Status.ofLast : Nat → Option Literal → Status
  | 0, _ => .falsified
  | 1, some literal => .unit literal
  | _, _ => .undetermined

theorem Status.ofLast_getLast? (literals : List Literal) :
    ofLast literals.length literals.getLast? = ofOpen literals := by
  match literals with
  | [] => rfl
  | [_] => rfl
  | _ :: _ :: _ => rfl

namespace Clause

variable {valuation : Valuation} {literals : List Literal}

def openLiterals (valuation : Valuation) (literals : List Literal) :
    List Literal :=
  literals.filter fun literal => (literal.value? valuation).isNone

/-- Goes through the literals with the number of open ones so far and the last
of them. -/
def scanStatus (valuation : Valuation) :
    List Literal → Nat → Option Literal → Status
  | [], opened, last => .ofLast opened last
  | literal :: rest, opened, last =>
      match literal.value? valuation with
      | some true => .satisfied
      | some false => scanStatus valuation rest opened last
      | none => scanStatus valuation rest (opened + 1) (some literal)

theorem statusOf_eq_ofOpen
    (noneTrue : ∀ literal ∈ literals, literal.value? valuation ≠ some true) :
    statusOf valuation literals = .ofOpen (openLiterals valuation literals) := by
  induction literals with
  | nil => rfl
  | cons first rest induction =>
      obtain ⟨notTrue, restNotTrue⟩ := List.forall_mem_cons.mp noneTrue
      have restStatus := induction restNotTrue
      cases value : first.value? valuation with
      | some given =>
          cases given with
          | true => exact absurd value notTrue
          | false => simpa [statusOf, openLiterals, value] using restStatus
      | none =>
          have split : openLiterals valuation (first :: rest) =
              first :: openLiterals valuation rest := by
            simp [openLiterals, value]
          rw [split, statusOf, value, restStatus]
          rcases openLiterals valuation rest with _ | ⟨_, _ | _⟩ <;> rfl

/-- The pass is at the literals that follow those seen, none of which is
true. -/
theorem scanStatus_eq_statusOf_append (seen : List Literal)
    (noneTrue : ∀ literal ∈ seen, literal.value? valuation ≠ some true) :
    scanStatus valuation literals (openLiterals valuation seen).length
        (openLiterals valuation seen).getLast? =
      statusOf valuation (seen ++ literals) := by
  induction literals generalizing seen with
  | nil =>
      rw [scanStatus, Status.ofLast_getLast?, List.append_nil,
        statusOf_eq_ofOpen noneTrue]
  | cons first rest induction =>
      have step (notTrue : first.value? valuation ≠ some true) :=
        induction (seen ++ [first])
          (List.forall_mem_append.mpr
            ⟨noneTrue, List.forall_mem_singleton.mpr notTrue⟩)
      rw [List.append_cons, scanStatus]
      cases value : first.value? valuation with
      | some given =>
          cases given with
          | true =>
              refine (statusOf_eq_satisfied_iff.mpr ⟨first, ?_, value⟩).symm
              simp
          | false => simpa [openLiterals, value] using step (by simp [value])
      | none => simpa [openLiterals, value] using step (by simp [value])

/-- The pass from the first literal on finds the status. -/
theorem scanStatus_eq_status (clause : Clause) (valuation : Valuation) :
    scanStatus valuation clause.literals 0 none = clause.status valuation :=
  scanStatus_eq_statusOf_append [] (List.forall_mem_nil _)

theorem status_eq_satisfied_of_unit {clause : Clause}
    {larger smaller : Valuation} {literal : Literal}
    (isUnit : clause.status smaller = .unit literal)
    (holds : literal.value? larger = some true) :
    clause.status larger = .satisfied := by
  obtain ⟨member, _⟩ := mem_of_statusOf_eq_unit isUnit
  exact statusOf_eq_satisfied_iff.mpr ⟨literal, member, holds⟩

/-- Under a growing valuation a clause that is satisfied or falsified stays so,
and one that is unit is settled by the value of its literal, or stays unit for
as long as that has none.  Satisfied are just the clauses with a true literal.
Another order of the literals leads to the same status, and so does a pass
that counts the open literals and keeps the last. -/
theorem status_evolves_forward (clause : Clause) :
    (∀ larger smaller : Valuation, larger.Extends smaller →
      (clause.status smaller = .satisfied →
        clause.status larger = .satisfied) ∧
      (clause.status smaller = .falsified →
        clause.status larger = .falsified) ∧
      ∀ literal, clause.status smaller = .unit literal →
        (literal.value? larger = some true →
          clause.status larger = .satisfied) ∧
        (literal.value? larger = some false →
          clause.status larger = .falsified) ∧
        (literal.value? larger = none →
          clause.status larger = .unit literal)) ∧
    ∀ valuation,
      (clause.status valuation = .satisfied ↔
        clause.isSatisfiedBy valuation = true) ∧
      (∀ other : Clause, clause.literals.Perm other.literals →
        other.status valuation = clause.status valuation) ∧
      scanStatus valuation clause.literals 0 none =
        clause.status valuation := by
  refine ⟨?_, ?_⟩
  · intro larger smaller grows
    refine ⟨status_eq_satisfied_of_extends grows,
      status_eq_falsified_of_extends grows, ?_⟩
    intro literal isUnit
    exact ⟨status_eq_satisfied_of_unit isUnit,
      status_eq_falsified_of_unit grows isUnit,
      status_eq_unit_of_extends grows isUnit⟩
  · intro valuation
    refine ⟨status_eq_satisfied_iff, ?_, scanStatus_eq_status clause valuation⟩
    intro other reordered
    exact (status_eq_of_perm reordered valuation).symm

end Clause

end PropSat
