import PropSat.Cnf

/-!
# Extensions of valuations

A valuation that extends another one agrees with it wherever the smaller one
has a value.  Literals, clauses and clause sets that the smaller one makes
true are then true under the larger one, so a search may add assignments
without looking again at what is already settled.
-/

namespace PropSat

namespace Valuation

theorem Extends.refl (valuation : Valuation) : valuation.Extends valuation :=
  fun _ _ assigned => assigned

theorem Extends.trans {large middle small : Valuation}
    (first : large.Extends middle) (second : middle.Extends small) :
    large.Extends small :=
  fun name value assigned => first name value (second name value assigned)

theorem Extends.antisymm {first second : Valuation}
    (forward : first.Extends second) (backward : second.Extends first) :
    first = second := by
  ext name value
  exact ⟨backward name value, forward name value⟩

theorem extends_empty (valuation : Valuation) : valuation.Extends ∅ := by
  intro name value assigned
  have isOpen : (∅ : Valuation).get? name = none := get?_empty name
  rw [isOpen] at assigned
  cases assigned

theorem contains_iff_exists {valuation : Valuation} {name : String} :
    valuation.contains name = true ↔
      ∃ value, valuation.get? name = some value := by
  rw [contains_eq_isSome, Option.isSome_iff_exists]

theorem contains_eq_false_iff {valuation : Valuation} {name : String} :
    valuation.contains name = false ↔ valuation.get? name = none := by
  rw [contains_eq_isSome, Option.isSome_eq_false_iff, Option.isNone_iff_eq_none]

theorem Extends.covers {larger smaller : Valuation}
    (grows : larger.Extends smaller) : larger.Covers smaller := by
  intro name assigned
  obtain ⟨value, found⟩ := contains_iff_exists.mp assigned
  exact contains_iff_exists.mpr ⟨value, grows name value found⟩

/-- On a name that the smaller valuation assigns the two agree. -/
theorem Extends.get?_eq {larger smaller : Valuation}
    (grows : larger.Extends smaller) {name : String}
    (assigned : smaller.contains name = true) :
    larger.get? name = smaller.get? name := by
  obtain ⟨value, found⟩ := contains_iff_exists.mp assigned
  rw [found]
  exact grows name value found

theorem get?_assign_of_ne {valuation : Valuation} {name other : String}
    (different : name ≠ other) (value : Bool) :
    (valuation.assign name value).2.get? other = valuation.get? other := by
  rw [get?_assign, if_neg different]

theorem extends_assign {valuation : Valuation} {name : String}
    (isOpen : valuation.contains name = false) (value : Bool) :
    (valuation.assign name value).2.Extends valuation := by
  intro other given assigned
  have different : name ≠ other := by
    intro same
    subst same
    rw [contains_eq_false_iff.mp isOpen] at assigned
    cases assigned
  rw [get?_assign_of_ne different]
  exact assigned

/-- An assignment that the larger valuation already makes can be added to the
smaller one. -/
theorem Extends.assign_right {larger smaller : Valuation}
    (grows : larger.Extends smaller) {name : String} {value : Bool}
    (agrees : larger.get? name = some value) :
    larger.Extends (smaller.assign name value) := by
  intro other given assigned
  by_cases same : name = other
  · subst same
    rw [get?_assign_self] at assigned
    rw [agrees, assigned]
  · rw [get?_assign_of_ne same] at assigned
    exact grows other given assigned

/-- How many variables of a list are unassigned, each counted once however
often it is in the list. -/
def openVariables (valuation : Valuation) (names : List String) : Nat :=
  valuation.unassigned (Std.ExtTreeSet.ofList names : NameSet).toList

theorem isTotalOver_iff {valuation : Valuation} {names : List String} :
    valuation.isTotalOver names = true ↔
      ∀ name ∈ names, valuation.contains name = true :=
  List.all_eq_true

/-- The last assignment to a name is the one that stays. -/
theorem get?_extend (start : Valuation) (pairs : List (String × Bool))
    (name : String) :
    (start.extend pairs).get? name =
      (pairs.reverse.lookup name).or (start.get? name) := by
  induction pairs generalizing start with
  | nil => rfl
  | cons first rest induction =>
      obtain ⟨other, value⟩ := first
      have later := induction (start.assign other value)
      rw [get?_assign] at later
      rw [List.reverse_cons, List.lookup_append, Option.or_assoc]
      refine later.trans (congrArg _ ?_)
      by_cases same : name = other
      · simp [same]
      · have different : (name == other) = false := beq_false_of_ne same
        simp [List.lookup_cons, different, Ne.symm same]

theorem mem_of_lookup_reverse {pairs : List (String × Bool)} {name : String}
    {value : Bool} (last : pairs.reverse.lookup name = some value) :
    (name, value) ∈ pairs := by
  obtain ⟨before, after, split, _⟩ := List.lookup_eq_some_iff.mp last
  apply List.mem_reverse.mp
  rw [split]
  exact List.mem_append_right before List.mem_cons_self

theorem lookup_reverse_eq_none_iff {pairs : List (String × Bool)}
    {name : String} :
    pairs.reverse.lookup name = none ↔ ∀ value, (name, value) ∉ pairs := by
  rw [List.lookup_eq_none_iff]
  constructor
  · intro different value member
    simpa using different (name, value) (List.mem_reverse.mpr member)
  · rintro absent ⟨other, value⟩ member
    rw [bne_iff_ne]
    rintro rfl
    exact absent value (List.mem_reverse.mp member)

/-- A list of assignments gives a name the value that all its assignments
agree on. -/
theorem get?_extend_of_agree {start : Valuation}
    {pairs : List (String × Bool)} {name : String} {value : Bool}
    (agree : ∀ given, (name, given) ∈ pairs → given = value)
    (found : (name, value) ∈ pairs ∨ start.get? name = some value) :
    (start.extend pairs).get? name = some value := by
  rw [get?_extend]
  cases last : pairs.reverse.lookup name with
  | none =>
      rcases found with member | atStart
      · exact absurd member (lookup_reverse_eq_none_iff.mp last value)
      · exact atStart
  | some given => rw [agree given (mem_of_lookup_reverse last), Option.some_or]

theorem contains_extend_iff {start : Valuation}
    {pairs : List (String × Bool)} {name : String} :
    (start.extend pairs).contains name = true ↔
      (∃ value, (name, value) ∈ pairs) ∨ start.contains name = true := by
  rw [contains_eq_isSome, contains_eq_isSome, get?_extend, Option.isSome_or,
    Bool.or_eq_true, List.lookup_isSome_iff]
  simp

theorem get?_extend_of_not_mem {start : Valuation}
    {pairs : List (String × Bool)} {name : String}
    (absent : ∀ value, (name, value) ∉ pairs) :
    (start.extend pairs).get? name = start.get? name := by
  rw [get?_extend, lookup_reverse_eq_none_iff.mpr absent, Option.none_or]

theorem Extends.extend_right {larger smaller : Valuation}
    (grows : larger.Extends smaller) {pairs : List (String × Bool)}
    (agrees : ∀ name value, (name, value) ∈ pairs →
      larger.get? name = some value) :
    larger.Extends (smaller.extend pairs) := by
  intro name value found
  rw [get?_extend] at found
  cases last : pairs.reverse.lookup name with
  | none =>
      rw [last, Option.none_or] at found
      exact grows name value found
  | some given =>
      rw [last, Option.some_or] at found
      rw [← found]
      exact agrees name given (mem_of_lookup_reverse last)

end Valuation

namespace Literal

theorem value?_eq_some_iff {literal : Literal} {valuation : Valuation}
    {value : Bool} :
    literal.value? valuation = some value ↔
      valuation.get? literal.name = some (value == literal.polarity) := by
  cases assigned : valuation.get? literal.name with
  | none => simp [value?, assigned]
  | some given =>
      cases given <;> cases value <;> cases polarity : literal.polarity <;>
        simp [value?, assigned, polarity]

theorem value?_of_extends {literal : Literal} {larger smaller : Valuation}
    (grows : larger.Extends smaller) {value : Bool}
    (found : literal.value? smaller = some value) :
    literal.value? larger = some value := by
  rw [value?_eq_some_iff] at found ⊢
  exact grows _ _ found

end Literal

namespace Valuation

theorem extends_satisfy {valuation : Valuation} {literal : Literal}
    (isOpen : literal.value? valuation = none) :
    (valuation.satisfy literal).Extends valuation :=
  extends_assign ((literal.value?_eq_none_iff valuation).mp isOpen) _

/-- A valuation under which the literal is true extends the one that was
changed to make it true. -/
theorem Extends.satisfy_right {larger smaller : Valuation}
    (grows : larger.Extends smaller) {literal : Literal}
    (holds : literal.value? larger = some true) :
    larger.Extends (smaller.satisfy literal) := by
  refine grows.assign_right ?_
  rw [Literal.value?_eq_some_iff] at holds
  rw [holds]
  cases literal.polarity <;> rfl

end Valuation

namespace Clause

theorem isSatisfiedBy_iff {clause : Clause} {valuation : Valuation} :
    clause.isSatisfiedBy valuation = true ↔
      ∃ literal ∈ clause.literals, literal.value? valuation = some true := by
  simp [isSatisfiedBy]

theorem isSatisfiedBy_of_extends {clause : Clause}
    {larger smaller : Valuation} (grows : larger.Extends smaller)
    (satisfied : clause.isSatisfiedBy smaller = true) :
    clause.isSatisfiedBy larger = true := by
  rw [isSatisfiedBy_iff] at satisfied ⊢
  obtain ⟨literal, member, holds⟩ := satisfied
  exact ⟨literal, member, Literal.value?_of_extends grows holds⟩

end Clause

namespace Cnf

theorem isSatisfiedBy_iff {cnf : Cnf} {valuation : Valuation} :
    cnf.isSatisfiedBy valuation = true ↔
      ∀ clause ∈ cnf.clauses, clause.isSatisfiedBy valuation = true :=
  List.all_eq_true

theorem isSatisfiedBy_of_extends {cnf : Cnf} {larger smaller : Valuation}
    (grows : larger.Extends smaller)
    (satisfied : cnf.isSatisfiedBy smaller = true) :
    cnf.isSatisfiedBy larger = true := by
  rw [isSatisfiedBy_iff] at satisfied ⊢
  intro clause member
  exact Clause.isSatisfiedBy_of_extends grows (satisfied clause member)

end Cnf

end PropSat
