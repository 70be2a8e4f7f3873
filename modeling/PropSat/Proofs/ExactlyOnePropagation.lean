import PropSat.Proofs.ClauseAtoms
import PropSat.Proofs.CountingClauses
import PropSat.Proofs.LeastClosure

/-!
# Propagation decides exactly-one constraints

What propagation does with the clauses of `exactlyOne` over atoms depends on
two numbers, of the members that are true and of those that are unassigned.
A valuation is closed for the clauses if one member is true and the others are
false, or if none is true and two or more are open: the clauses of pairs rule
out everything else with a true member, and the clause of all members what has
no true one.  Which closed extension is the least follows by counting, since
extending a valuation can only raise the first number and lower the second.
-/

namespace PropSat

def Valuation.trueCount (valuation : Valuation) (names : List String) : Nat :=
  names.countP fun name => valuation.get? name == some true

namespace Cardinality

/-- The clauses that say that exactly one of some variables is true. -/
def oneOf (names : List String) : Cnf :=
  (exactlyOne (names.map .atom)).clauses

variable {valuation larger other closure : Valuation} {names : List String}
  {name : String}

theorem clauses_oneOf (names : List String) :
    (oneOf names).clauses =
      (pairs names).map (fun pair =>
        ⟨[.negative pair.1, .negative pair.2]⟩) ++
      [⟨names.map .positive⟩] := by
  have literals : names.map Formula.atom =
      (names.map Literal.positive).map Literal.formula := by
    rw [List.map_map]
    rfl
  rw [oneOf, literals, clauses_exactlyOne, pairs_map, List.map_map]
  rfl

theorem trueCount_cons (valuation : Valuation) (name : String)
    (rest : List String) :
    valuation.trueCount (name :: rest) = valuation.trueCount rest +
      if valuation.get? name = some true then 1 else 0 := by
  simp [Valuation.trueCount, List.countP_cons]

theorem unassigned_cons (valuation : Valuation) (name : String)
    (rest : List String) :
    valuation.unassigned (name :: rest) = valuation.unassigned rest +
      if valuation.get? name = none then 1 else 0 := by
  simp [Valuation.unassigned, List.countP_cons, Valuation.contains_eq_isSome]

theorem value?_positive (name : String) (valuation : Valuation) :
    (Literal.positive name).value? valuation = valuation.get? name := by
  cases assigned : valuation.get? name <;>
    simp [Literal.value?, Literal.positive, assigned]

theorem value?_negative (name : String) (valuation : Valuation) :
    (Literal.negative name).value? valuation =
      (valuation.get? name).map (!·) := by
  cases assigned : valuation.get? name <;>
    simp [Literal.value?, Literal.negative, assigned]

theorem status_members (valuation : Valuation) (names : List String) :
    match Clause.statusOf valuation (names.map .positive) with
    | .satisfied => 0 < valuation.trueCount names
    | .falsified =>
        valuation.trueCount names = 0 ∧ valuation.unassigned names = 0
    | .unit _ =>
        valuation.trueCount names = 0 ∧ valuation.unassigned names = 1
    | .undetermined =>
        valuation.trueCount names = 0 ∧ 2 ≤ valuation.unassigned names := by
  induction names with
  | nil => exact ⟨rfl, rfl⟩
  | cons name rest ih =>
      rw [List.map_cons, Clause.statusOf, value?_positive, trueCount_cons,
        unassigned_cons]
      rcases valuation.get? name with _ | _ | _
      · cases status : Clause.statusOf valuation (rest.map .positive) <;>
          simp only [status] at ih ⊢ <;> simp <;> omega
      · simpa using ih
      · simp

theorem members_closed_iff :
    (Clause.status ⟨names.map .positive⟩ valuation = .satisfied ∨
      Clause.status ⟨names.map .positive⟩ valuation = .undetermined) ↔
      0 < valuation.trueCount names ∨ 2 ≤ valuation.unassigned names := by
  have state := status_members valuation names
  unfold Clause.status
  cases status : Clause.statusOf valuation (names.map .positive) <;>
    simp only [status] at state ⊢ <;> simp <;> omega

/-- A pair asks for nothing when one of the two is false, or both are open. -/
def PairIsQuiet (valuation : Valuation) (first second : String) : Prop :=
  valuation.get? first = some false ∨ valuation.get? second = some false ∨
    valuation.get? first = none ∧ valuation.get? second = none

theorem pair_closed_iff {first second : String} :
    (Clause.status ⟨[.negative first, .negative second]⟩ valuation =
        .satisfied ∨
      Clause.status ⟨[.negative first, .negative second]⟩ valuation =
        .undetermined) ↔ PairIsQuiet valuation first second := by
  unfold Clause.status PairIsQuiet
  simp only [Clause.statusOf, value?_negative]
  rcases valuation.get? first with _ | _ | _ <;>
    rcases valuation.get? second with _ | _ | _ <;> simp

theorem trueCount_eq_zero_iff :
    valuation.trueCount names = 0 ↔
      ∀ name ∈ names, valuation.get? name ≠ some true := by
  simp [Valuation.trueCount]

theorem unassigned_eq_zero_iff :
    valuation.unassigned names = 0 ↔
      ∀ name ∈ names, valuation.get? name ≠ none := by
  simp [Valuation.unassigned, Valuation.contains_eq_isSome]

/-- What the pairs of a name with all later ones ask for. -/
theorem forall_pairIsQuiet_iff {rest : List String} :
    (∀ other ∈ rest, PairIsQuiet valuation name other) ↔
      match valuation.get? name with
      | some true =>
          valuation.trueCount rest = 0 ∧ valuation.unassigned rest = 0
      | some false => True
      | none => valuation.trueCount rest = 0 := by
  unfold PairIsQuiet
  rcases value : valuation.get? name with _ | _ | _
  · rw [trueCount_eq_zero_iff]
    refine forall_congr' fun other => imp_congr_right fun _ => ?_
    rcases valuation.get? other with _ | _ | _ <;> simp
  · simp
  · rw [trueCount_eq_zero_iff, unassigned_eq_zero_iff, ← forall₂_and]
    refine forall_congr' fun other => imp_congr_right fun _ => ?_
    rcases valuation.get? other with _ | _ | _ <;> simp

theorem pairwise_pairIsQuiet_iff :
    names.Pairwise (PairIsQuiet valuation) ↔
      valuation.trueCount names = 0 ∨
        valuation.trueCount names = 1 ∧ valuation.unassigned names = 0 := by
  induction names with
  | nil => simp [Valuation.trueCount]
  | cons name rest ih =>
      rw [List.pairwise_cons, ih, forall_pairIsQuiet_iff, trueCount_cons,
        unassigned_cons]
      rcases valuation.get? name with _ | _ | _ <;> simp <;> omega

theorem isClosedFor_oneOf_iff :
    valuation.IsClosedFor (oneOf names).clauses ↔
      valuation.trueCount names = 1 ∧ valuation.unassigned names = 0 ∨
        valuation.trueCount names = 0 ∧ 2 ≤ valuation.unassigned names := by
  rw [clauses_oneOf, Valuation.IsClosedFor, List.forall_mem_append,
    List.forall_mem_map, List.forall_mem_singleton, members_closed_iff]
  simp only [pair_closed_iff]
  rw [forall_mem_pairs_iff, pairwise_pairIsQuiet_iff]
  omega

end Cardinality

/-- A predicate that holds wherever another one does, and somewhere else too,
holds more often. -/
theorem countP_lt_countP {α : Type} {first second : α → Bool}
    {members : List α}
    (weaker : ∀ member ∈ members, first member = true → second member = true)
    {extra : α} (isMember : extra ∈ members) (onlySecond : second extra = true)
    (notFirst : first extra = false) :
    members.countP first < members.countP second := by
  obtain ⟨before, after, rfl⟩ := List.append_of_mem isMember
  rw [List.forall_mem_append, List.forall_mem_cons] at weaker
  have left : before.countP first ≤ before.countP second :=
    List.countP_mono_left weaker.1
  have right : after.countP first ≤ after.countP second :=
    List.countP_mono_left weaker.2.2
  simp only [List.countP_append, List.countP_cons, onlySecond, notFirst]
  simp only [if_true, Bool.false_eq_true, if_false]
  omega

namespace Valuation

def assignOpen (valuation : Valuation) (names : List String) (value : Bool) :
    Valuation :=
  valuation.extend
    ((names.filter fun name => !valuation.contains name).map (·, value))

variable {valuation larger : Valuation} {names : List String} {name : String}
  {value : Bool}

theorem get?_assignOpen (valuation : Valuation) (names : List String)
    (value : Bool) (name : String) :
    (valuation.assignOpen names value).get? name =
      if name ∈ names ∧ valuation.get? name = none then some value
      else valuation.get? name := by
  split
  · next isOpen =>
      apply get?_extend_of_agree
      · intro given isPair
        obtain ⟨_, _, same⟩ := List.mem_map.mp isPair
        cases same
        rfl
      · left
        apply List.mem_map.mpr
        refine ⟨name, List.mem_filter.mpr ⟨isOpen.1, ?_⟩, rfl⟩
        simp [contains_eq_isSome, isOpen.2]
  · next notOpen =>
      apply get?_extend_of_not_mem
      intro given isPair
      obtain ⟨other, isOpen, same⟩ := List.mem_map.mp isPair
      cases same
      rw [List.mem_filter, Bool.not_eq_true', contains_eq_false_iff] at isOpen
      exact notOpen isOpen

theorem assignOpen_extends (valuation : Valuation) (names : List String)
    (value : Bool) : (valuation.assignOpen names value).Extends valuation := by
  intro name given assigned
  rw [get?_assignOpen, if_neg (by simp [assigned]), assigned]

theorem Extends.assignOpen_right (grows : larger.Extends valuation)
    (agrees : ∀ name ∈ names, valuation.get? name = none →
      larger.get? name = some value) :
    larger.Extends (valuation.assignOpen names value) := by
  intro name given assigned
  rw [get?_assignOpen] at assigned
  split at assigned
  · next isOpen => rw [agrees name isOpen.1 isOpen.2, assigned]
  · exact grows name given assigned

theorem unassigned_assignOpen (valuation : Valuation) (names : List String)
    (value : Bool) :
    (valuation.assignOpen names value).unassigned names = 0 := by
  rw [Cardinality.unassigned_eq_zero_iff]
  intro name member
  rw [get?_assignOpen]
  split
  · simp
  · next notOpen =>
      intro isOpen
      exact notOpen ⟨member, isOpen⟩

theorem trueCount_assignOpen_false (valuation : Valuation)
    (names : List String) :
    (valuation.assignOpen names false).trueCount names =
      valuation.trueCount names := by
  apply List.countP_congr
  intro name _
  rw [get?_assignOpen]
  split
  · next isOpen => simp [isOpen.2]
  · rfl

theorem trueCount_assignOpen_true (noneTrue : valuation.trueCount names = 0) :
    (valuation.assignOpen names true).trueCount names =
      valuation.unassigned names := by
  rw [Cardinality.trueCount_eq_zero_iff] at noneTrue
  apply List.countP_congr
  intro name member
  have notTrue := noneTrue name member
  rw [get?_assignOpen, contains_eq_isSome]
  cases assigned : valuation.get? name with
  | none => simp [member]
  | some value => cases value <;> simp_all

theorem Extends.trueCount_le (grows : larger.Extends valuation)
    (names : List String) :
    valuation.trueCount names ≤ larger.trueCount names := by
  apply List.countP_mono_left
  intro name _ isTrue
  rw [beq_iff_eq] at isTrue ⊢
  exact grows name true isTrue

/-- A name that is true now and was open before is one more true name. -/
theorem Extends.trueCount_lt (grows : larger.Extends valuation)
    (member : name ∈ names) (isOpen : valuation.get? name = none)
    (isTrue : larger.get? name = some true) :
    valuation.trueCount names < larger.trueCount names := by
  apply countP_lt_countP _ member
  · simp [isTrue]
  · simp [isOpen]
  · intro other _ otherTrue
    rw [beq_iff_eq] at otherTrue ⊢
    exact grows other true otherTrue

theorem Extends.trueCount_eq (grows : larger.Extends valuation)
    (noneOpen : valuation.unassigned names = 0) :
    larger.trueCount names = valuation.trueCount names := by
  rw [Cardinality.unassigned_eq_zero_iff] at noneOpen
  apply List.countP_congr
  intro name member
  have assigned : valuation.contains name = true := by
    rw [contains_eq_isSome, Option.isSome_iff_ne_none]
    exact noneOpen name member
  rw [grows.get?_eq assigned]

/-- Where nothing was true, all that is true now was open, and a name that is
not true now is left over. -/
theorem Extends.trueCount_lt_unassigned (grows : larger.Extends valuation)
    (noneTrue : valuation.trueCount names = 0) (member : name ∈ names)
    (isOpen : valuation.get? name = none)
    (notTrue : larger.get? name ≠ some true) :
    larger.trueCount names < valuation.unassigned names := by
  rw [Cardinality.trueCount_eq_zero_iff] at noneTrue
  apply countP_lt_countP _ member
  · simp [contains_eq_isSome, isOpen]
  · simp [notTrue]
  · intro other isMember otherTrue
    rw [beq_iff_eq] at otherTrue
    cases assigned : valuation.get? other with
    | none => simp [contains_eq_isSome, assigned]
    | some given =>
        have kept := grows other given assigned
        rw [otherTrue] at kept
        cases kept
        exact absurd assigned (noneTrue other isMember)

end Valuation

namespace Cardinality

variable {valuation larger closure : Valuation} {names : List String}

theorem propagate_oneOf_of_true (oneTrue : valuation.trueCount names = 1) :
    (oneOf names).propagate valuation =
      .consistent (valuation.assignOpen names false) := by
  rw [Cnf.propagate_eq_consistent_iff]
  refine ⟨valuation.assignOpen_extends names false, ?_, ?_⟩
  · rw [isClosedFor_oneOf_iff]
    left
    rw [Valuation.trueCount_assignOpen_false]
    exact ⟨oneTrue, valuation.unassigned_assignOpen names false⟩
  · intro other grows closed
    apply grows.assignOpen_right
    intro name member isOpen
    have more := grows.trueCount_le names
    have counts : other.trueCount names = 1 ∧ other.unassigned names = 0 := by
      rw [isClosedFor_oneOf_iff] at closed
      omega
    have assigned := unassigned_eq_zero_iff.mp counts.2 name member
    cases value : other.get? name with
    | none => exact absurd value assigned
    | some given =>
        cases given with
        | false => rfl
        | true =>
            have secondTrue := grows.trueCount_lt member isOpen value
            omega

theorem propagate_oneOf_of_last (noneTrue : valuation.trueCount names = 0)
    (oneOpen : valuation.unassigned names = 1) :
    (oneOf names).propagate valuation =
      .consistent (valuation.assignOpen names true) := by
  rw [Cnf.propagate_eq_consistent_iff]
  refine ⟨valuation.assignOpen_extends names true, ?_, ?_⟩
  · rw [isClosedFor_oneOf_iff]
    left
    rw [Valuation.trueCount_assignOpen_true noneTrue]
    exact ⟨oneOpen, valuation.unassigned_assignOpen names true⟩
  · intro other grows closed
    apply grows.assignOpen_right
    intro name member isOpen
    by_contra notTrue
    have fewer :=
      grows.trueCount_lt_unassigned noneTrue member isOpen notTrue
    have fewerOpen := grows.covers.unassigned_le names
    rw [isClosedFor_oneOf_iff] at closed
    omega

theorem propagate_oneOf_of_open (noneTrue : valuation.trueCount names = 0)
    (manyOpen : 2 ≤ valuation.unassigned names) :
    (oneOf names).propagate valuation = .consistent valuation := by
  rw [Cnf.propagate_eq_consistent_iff]
  refine ⟨.refl valuation, ?_, ?_⟩
  · rw [isClosedFor_oneOf_iff]
    exact .inr ⟨noneTrue, manyOpen⟩
  · intro other grows _
    exact grows

theorem propagate_oneOf_of_impossible
    (impossible : 2 ≤ valuation.trueCount names ∨
      valuation.trueCount names = 0 ∧ valuation.unassigned names = 0) :
    (oneOf names).propagate valuation = .conflict := by
  rw [Cnf.propagate_eq_conflict_iff]
  rintro ⟨other, grows, closed⟩
  rw [isClosedFor_oneOf_iff] at closed
  have fewerOpen := grows.covers.unassigned_le names
  rcases impossible with twoTrue | ⟨noneTrue, noneOpen⟩
  · have more := grows.trueCount_le names
    omega
  · have same := grows.trueCount_eq noneOpen
    omega

theorem propagate_oneOf_eq_conflict_iff :
    (oneOf names).propagate valuation = .conflict ↔
      2 ≤ valuation.trueCount names ∨
        valuation.trueCount names = 0 ∧ valuation.unassigned names = 0 := by
  refine ⟨fun conflict => ?_, propagate_oneOf_of_impossible⟩
  by_contra possible
  have number : valuation.trueCount names = 1 ∨
      valuation.trueCount names = 0 ∧
        (valuation.unassigned names = 1 ∨
          2 ≤ valuation.unassigned names) := by
    omega
  rcases number with oneTrue | ⟨noneTrue, oneOpen | manyOpen⟩
  · rw [propagate_oneOf_of_true oneTrue] at conflict
    cases conflict
  · rw [propagate_oneOf_of_last noneTrue oneOpen] at conflict
    cases conflict
  · rw [propagate_oneOf_of_open noneTrue manyOpen] at conflict
    cases conflict

theorem mem_of_mem_names_oneOf {name : String}
    (occurs : name ∈ (oneOf names).names) : name ∈ names := by
  have inFormula := Formula.mem_atoms_of_mem_clauses occurs
  rw [mem_atoms_exactlyOne_iff] at inFormula
  obtain ⟨_, isMember, isName⟩ := inFormula
  obtain ⟨member, inNames, rfl⟩ := List.mem_map.mp isMember
  rw [Formula.atoms, List.mem_singleton] at isName
  rw [isName]
  exact inNames

theorem isSatisfiedBy_oneOf_iff :
    (oneOf names).isSatisfiedBy valuation = true ↔
      valuation.trueCount names = 1 ∧ valuation.unassigned names = 0 := by
  constructor
  · intro satisfied
    have closed := Valuation.IsClosedFor.of_isSatisfiedBy satisfied
    have isMember : ⟨names.map .positive⟩ ∈ (oneOf names).clauses := by
      rw [clauses_oneOf]
      exact List.mem_append_right _ List.mem_cons_self
    have clauseSatisfied := Clause.status_eq_satisfied_iff.mpr
      (Cnf.isSatisfiedBy_iff.mp satisfied _ isMember)
    have state := status_members valuation names
    unfold Clause.status at clauseSatisfied
    simp only [clauseSatisfied] at state
    rw [isClosedFor_oneOf_iff] at closed
    omega
  · intro counts
    have closed := isClosedFor_oneOf_iff.mpr (.inl counts)
    apply closed.isSatisfiedBy
    intro name occurs
    rw [Valuation.contains_eq_isSome, Option.isSome_iff_ne_none]
    exact unassigned_eq_zero_iff.mp counts.2 name
      (mem_of_mem_names_oneOf occurs)

theorem isSatisfiedBy_oneOf_iff_choice (nodup : names.Nodup) :
    (oneOf names).isSatisfiedBy valuation = true ↔
      ∃ chosen ∈ names, ∀ name ∈ names,
        valuation.get? name = some (decide (name = chosen)) := by
  rw [oneOf, Formula.isSatisfiedBy_clauses_iff,
    kleene?_exactlyOne_map_iff nodup]
  simp only [Formula.kleene?]

/-- Under a closed valuation one true member makes all others false. -/
theorem get?_of_isClosedFor_oneOf (nodup : names.Nodup)
    (closed : valuation.IsClosedFor (oneOf names).clauses) {chosen : String}
    (member : chosen ∈ names) (isTrue : valuation.get? chosen = some true) :
    ∀ name ∈ names, valuation.get? name = some (decide (name = chosen)) := by
  have someTrue : valuation.trueCount names ≠ 0 := by
    intro noneTrue
    exact trueCount_eq_zero_iff.mp noneTrue chosen member isTrue
  have counts : valuation.trueCount names = 1 ∧
      valuation.unassigned names = 0 := by
    rw [isClosedFor_oneOf_iff] at closed
    exact closed.resolve_right fun noneTrue => someTrue noneTrue.1
  obtain ⟨other, _, values⟩ := (isSatisfiedBy_oneOf_iff_choice nodup).mp
    (isSatisfiedBy_oneOf_iff.mpr counts)
  have isOther : chosen = other := by
    have value := values chosen member
    rw [isTrue, Option.some.injEq] at value
    exact of_decide_eq_true value.symm
  rw [isOther]
  exact values

theorem exists_choice (nodup : names.Nodup)
    (noneTrue : valuation.trueCount names = 0) {chosen : String}
    (member : chosen ∈ names) (isOpen : valuation.get? chosen = none) :
    ∃ larger : Valuation, larger.Extends valuation ∧
      (oneOf names).isSatisfiedBy larger = true ∧
      ∀ name ∈ names, larger.get? name = some (decide (name = chosen)) := by
  have unassigned : valuation.contains chosen = false :=
    Valuation.contains_eq_false_iff.mpr isOpen
  have values : ∀ name ∈ names,
      ((valuation.assign chosen true).2.assignOpen names false).get? name =
        some (decide (name = chosen)) := by
    intro name inNames
    have notTrue := trueCount_eq_zero_iff.mp noneTrue name inNames
    rw [Valuation.get?_assignOpen, Valuation.get?_assign]
    by_cases same : chosen = name
    · simp [same]
    · cases assigned : valuation.get? name with
      | none => simp [same, inNames, Ne.symm same]
      | some value => cases value <;> simp_all [Ne.symm same]
  refine ⟨_, (Valuation.assignOpen_extends _ names false).trans
    (Valuation.extends_assign unassigned true), ?_, values⟩
  rw [isSatisfiedBy_oneOf_iff_choice nodup]
  exact ⟨chosen, member, values⟩

theorem exists_other_open (nodup : names.Nodup)
    (manyOpen : 2 ≤ valuation.unassigned names) (name : String) :
    ∃ other ∈ names, other ≠ name ∧ valuation.get? other = none := by
  by_contra none
  push Not at none
  have onlyName : valuation.unassigned names ≤ names.count name := by
    apply List.countP_mono_left
    intro other member isOpen
    rw [beq_iff_eq]
    by_contra different
    rw [Bool.not_eq_true', Valuation.contains_eq_false_iff] at isOpen
    exact none other member different isOpen
  have once := List.nodup_iff_count_le_one.mp nodup name
  omega

/-- Where propagation meets no conflict, some member can be the true one. -/
theorem exists_satisfied (nodup : names.Nodup)
    (found : (oneOf names).propagate valuation = .consistent closure) :
    ∃ larger : Valuation, larger.Extends closure ∧
      (oneOf names).isSatisfiedBy larger = true := by
  obtain ⟨_, closed, _⟩ := Cnf.propagate_eq_consistent_iff.mp found
  rw [isClosedFor_oneOf_iff] at closed
  rcases closed with settled | ⟨noneTrue, manyOpen⟩
  · exact ⟨closure, .refl closure, isSatisfiedBy_oneOf_iff.mpr settled⟩
  · obtain ⟨chosen, member, _, isOpen⟩ := exists_other_open nodup manyOpen ""
    obtain ⟨larger, grows, satisfied, _⟩ :=
      exists_choice nodup noneTrue member isOpen
    exact ⟨larger, grows, satisfied⟩

/-- A conflict says that no extension makes exactly one member true, whether
or not it decides the others. -/
theorem conflict_iff_no_extension (nodup : names.Nodup) :
    (oneOf names).propagate valuation = .conflict ↔
      ¬ ∃ larger : Valuation, larger.Extends valuation ∧
        larger.trueCount names = 1 := by
  constructor
  · rintro conflict ⟨larger, grows, oneTrue⟩
    rcases propagate_oneOf_eq_conflict_iff.mp conflict with
      twoTrue | ⟨noneTrue, noneOpen⟩
    · have more := grows.trueCount_le names
      omega
    · have same := grows.trueCount_eq noneOpen
      omega
  · intro noExtension
    cases found : (oneOf names).propagate valuation with
    | conflict => rfl
    | consistent closure =>
        obtain ⟨grows, _, _⟩ := Cnf.propagate_eq_consistent_iff.mp found
        obtain ⟨larger, growsOn, satisfied⟩ := exists_satisfied nodup found
        have counts := isSatisfiedBy_oneOf_iff.mp satisfied
        exact absurd ⟨larger, growsOn.trans grows, counts.1⟩ noExtension

/-- Propagation assigns the members whose value does not depend on which
member becomes the true one. -/
theorem get?_closure_iff (nodup : names.Nodup)
    (found : (oneOf names).propagate valuation = .consistent closure)
    {name : String} (member : name ∈ names) {value : Bool} :
    closure.get? name = some value ↔
      ∀ larger : Valuation, larger.Extends valuation →
        (oneOf names).isSatisfiedBy larger = true →
          larger.get? name = some value := by
  obtain ⟨grows, closed, least⟩ := Cnf.propagate_eq_consistent_iff.mp found
  constructor
  · intro assigned larger growsOn satisfied
    have above :=
      least larger growsOn (Valuation.IsClosedFor.of_isSatisfiedBy satisfied)
    exact above name value assigned
  · intro same
    cases assigned : closure.get? name with
    | some given =>
        obtain ⟨larger, growsOn, satisfied⟩ := exists_satisfied nodup found
        rw [← growsOn name given assigned]
        exact same larger (growsOn.trans grows) satisfied
    | none =>
        have counts : closure.trueCount names = 0 ∧
            2 ≤ closure.unassigned names := by
          rw [isClosedFor_oneOf_iff] at closed
          rcases closed with settled | counts
          · exact absurd assigned
              (unassigned_eq_zero_iff.mp settled.2 name member)
          · exact counts
        obtain ⟨other, otherMember, different, otherOpen⟩ :=
          exists_other_open nodup counts.2 name
        obtain ⟨first, firstGrows, firstSatisfied, firstValues⟩ :=
          exists_choice nodup counts.1 member assigned
        obtain ⟨second, secondGrows, secondSatisfied, secondValues⟩ :=
          exists_choice nodup counts.1 otherMember otherOpen
        have isTrue := same first (firstGrows.trans grows) firstSatisfied
        have isFalse := same second (secondGrows.trans grows) secondSatisfied
        rw [firstValues name member, decide_eq_true rfl] at isTrue
        rw [secondValues name member, decide_eq_false different.symm]
          at isFalse
        rw [← isTrue] at isFalse
        cases isFalse

/-- Propagation over the clauses of an exactly-one constraint depends on how
many members are true and how many are open.  It meets a conflict exactly when
no extension makes one member true and no other; it makes the open members
false once one is true, and the last open one true if none is; otherwise it
adds nothing.  What it assigns is what all satisfying extensions agree on. -/
theorem propagation_decides_exactly_one {names : List String}
    (nodup : names.Nodup) (valuation : Valuation) :
    let cnf := (exactlyOne (names.map .atom)).clauses
    (cnf.propagate valuation = .conflict ↔
      2 ≤ valuation.trueCount names ∨
        valuation.trueCount names = 0 ∧ valuation.unassigned names = 0) ∧
    (cnf.propagate valuation = .conflict ↔
      ¬ ∃ larger : Valuation, larger.Extends valuation ∧
        larger.trueCount names = 1) ∧
    (valuation.trueCount names = 1 →
      cnf.propagate valuation =
        .consistent (valuation.assignOpen names false)) ∧
    (valuation.trueCount names = 0 → valuation.unassigned names = 1 →
      cnf.propagate valuation =
        .consistent (valuation.assignOpen names true)) ∧
    (valuation.trueCount names = 0 → 2 ≤ valuation.unassigned names →
      cnf.propagate valuation = .consistent valuation) ∧
    ∀ closure, cnf.propagate valuation = .consistent closure →
      (∃ larger : Valuation, larger.Extends valuation ∧
        cnf.isSatisfiedBy larger = true) ∧
      ∀ name ∈ names, ∀ value, closure.get? name = some value ↔
        ∀ larger : Valuation, larger.Extends valuation →
          cnf.isSatisfiedBy larger = true →
            larger.get? name = some value := by
  refine ⟨propagate_oneOf_eq_conflict_iff, conflict_iff_no_extension nodup,
    propagate_oneOf_of_true, propagate_oneOf_of_last,
    propagate_oneOf_of_open, ?_⟩
  intro closure found
  refine ⟨?_, ?_⟩
  · obtain ⟨grows, _, _⟩ := Cnf.propagate_eq_consistent_iff.mp found
    obtain ⟨larger, growsOn, satisfied⟩ := exists_satisfied nodup found
    exact ⟨larger, growsOn.trans grows, satisfied⟩
  · intro name member value
    exact get?_closure_iff nodup found member

/-- One true member makes the others false, before and after it. -/
theorem propagation_decides_exactly_one_middle :
    ["a", "b", "c"].Nodup ∧
      (Valuation.ofList [("b", true)]).trueCount ["a", "b", "c"] = 1 ∧
      (exactlyOne (["a", "b", "c"].map .atom)).clauses.propagate
        (.ofList [("b", true)]) =
          .consistent (.ofList [("a", false), ("b", true), ("c", false)]) := by
  have nodup : ["a", "b", "c"].Nodup := by decide
  have oneTrue :
      (Valuation.ofList [("b", true)]).trueCount ["a", "b", "c"] = 1 := by
    decide +kernel
  obtain ⟨_, _, ofTrue, _⟩ :=
    propagation_decides_exactly_one nodup (.ofList [("b", true)])
  refine ⟨nodup, oneTrue, (ofTrue oneTrue).trans ?_⟩
  decide +kernel

end Cardinality

end PropSat
