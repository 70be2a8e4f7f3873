import PropSat.Proofs.Extension

/-!
# What the status of a clause says

Each of the four states is a statement about the values of the literals.  From
these the states of a clause under growing valuations follow: what is
satisfied or falsified stays so, and a unit clause can only become true
through the literal that it was left with.

A valuation is closed for some clauses when none of them is falsified or unit.
Closed valuations are what propagation looks for, and every model is one.
-/

namespace PropSat

namespace Clause

theorem statusOf_eq_satisfied_iff {valuation : Valuation}
    {literals : List Literal} :
    statusOf valuation literals = .satisfied ↔
      ∃ literal ∈ literals, literal.value? valuation = some true := by
  induction literals with
  | nil => simp [statusOf]
  | cons first rest induction =>
      simp only [List.mem_cons, exists_eq_or_imp, ← induction]
      cases value : first.value? valuation with
      | none =>
          cases status : statusOf valuation rest <;>
            simp [statusOf, value, status]
      | some assigned => cases assigned <;> simp [statusOf, value]

theorem statusOf_eq_falsified_iff {valuation : Valuation}
    {literals : List Literal} :
    statusOf valuation literals = .falsified ↔
      ∀ literal ∈ literals, literal.value? valuation = some false := by
  induction literals with
  | nil => simp [statusOf]
  | cons first rest induction =>
      rw [List.forall_mem_cons, ← induction]
      cases value : first.value? valuation with
      | none =>
          cases status : statusOf valuation rest <;>
            simp [statusOf, value, status]
      | some assigned => cases assigned <;> simp [statusOf, value]

/-- A unit clause has its one unassigned literal somewhere among false ones. -/
theorem statusOf_eq_unit_iff {valuation : Valuation}
    {literals : List Literal} {literal : Literal} :
    statusOf valuation literals = .unit literal ↔
      ∃ before after, literals = before ++ literal :: after ∧
        literal.value? valuation = none ∧
          ∀ other ∈ before ++ after, other.value? valuation = some false := by
  constructor
  · intro isUnit
    induction literals with
    | nil => simp [statusOf] at isUnit
    | cons first rest induction =>
        unfold statusOf at isUnit
        split at isUnit
        · cases isUnit
        · next isFalse =>
            obtain ⟨before, after, rfl, isOpen, othersFalse⟩ :=
              induction isUnit
            refine ⟨first :: before, after, rfl, isOpen, ?_⟩
            intro other member
            rcases List.mem_cons.mp member with rfl | later
            · exact isFalse
            · exact othersFalse other later
        · next isOpen =>
            split at isUnit
            · cases isUnit
            · next restFalse =>
                cases isUnit
                exact ⟨[], rest, rfl, isOpen,
                  statusOf_eq_falsified_iff.mp restFalse⟩
            · cases isUnit
            · cases isUnit
  · rintro ⟨before, after, rfl, isOpen, othersFalse⟩
    induction before with
    | nil =>
        have afterFalse : statusOf valuation after = .falsified :=
          statusOf_eq_falsified_iff.mpr othersFalse
        simp [statusOf, isOpen, afterFalse]
    | cons first before induction =>
        have isFalse : first.value? valuation = some false :=
          othersFalse first List.mem_cons_self
        have restUnit := induction fun other member =>
          othersFalse other (List.mem_cons_of_mem first member)
        simpa [statusOf, isFalse] using restUnit

theorem exists_open_of_statusOf_eq_undetermined {valuation : Valuation}
    {literals : List Literal}
    (undetermined : statusOf valuation literals = .undetermined) :
    ∃ literal ∈ literals, literal.value? valuation = none := by
  induction literals with
  | nil => simp [statusOf] at undetermined
  | cons first rest induction =>
      unfold statusOf at undetermined
      split at undetermined
      · cases undetermined
      · obtain ⟨literal, member, isOpen⟩ := induction undetermined
        exact ⟨literal, List.mem_cons_of_mem first member, isOpen⟩
      · next isOpen => exact ⟨first, List.mem_cons_self, isOpen⟩

/-- The order of the literals does not matter: a unit clause names the same
literal wherever it stands. -/
theorem statusOf_eq_of_perm {valuation : Valuation}
    {literals others : List Literal} (reordered : literals.Perm others) :
    statusOf valuation literals = statusOf valuation others := by
  induction reordered with
  | nil => rfl
  | cons first _ induction => simp only [statusOf, induction]
  | swap first second rest =>
      simp only [statusOf]
      rcases first.value? valuation with _ | _ | _ <;>
        rcases second.value? valuation with _ | _ | _ <;>
          cases statusOf valuation rest <;> rfl
  | trans _ _ first second => exact first.trans second

theorem status_eq_of_perm {first second : Clause}
    (reordered : first.literals.Perm second.literals)
    (valuation : Valuation) :
    first.status valuation = second.status valuation :=
  statusOf_eq_of_perm reordered

theorem status_eq_satisfied_iff {clause : Clause} {valuation : Valuation} :
    clause.status valuation = .satisfied ↔
      clause.isSatisfiedBy valuation = true := by
  rw [isSatisfiedBy_iff]
  exact statusOf_eq_satisfied_iff

theorem status_eq_satisfied_of_extends {clause : Clause}
    {larger smaller : Valuation} (grows : larger.Extends smaller)
    (satisfied : clause.status smaller = .satisfied) :
    clause.status larger = .satisfied := by
  rw [status_eq_satisfied_iff] at satisfied ⊢
  exact isSatisfiedBy_of_extends grows satisfied

/-- Where all its variables have values a clause is true unless it is
falsified. -/
theorem isSatisfiedBy_of_not_falsified {clause : Clause}
    {valuation : Valuation}
    (notFalsified : clause.status valuation ≠ .falsified)
    (total : ∀ name ∈ clause.names, valuation.contains name = true) :
    clause.isSatisfiedBy valuation = true := by
  by_cases satisfied : clause.isSatisfiedBy valuation = true
  · exact satisfied
  · refine absurd (statusOf_eq_falsified_iff.mpr ?_) notFalsified
    intro literal member
    have assigned := total literal.name
      (List.mem_map.mpr ⟨literal, member, rfl⟩)
    cases value : literal.value? valuation with
    | none =>
        rw [Literal.value?_eq_none_iff, assigned] at value
        cases value
    | some given =>
        cases given with
        | true =>
            exact absurd (isSatisfiedBy_iff.mpr ⟨literal, member, value⟩)
              satisfied
        | false => rfl

theorem status_eq_falsified_of_extends {clause : Clause}
    {larger smaller : Valuation} (grows : larger.Extends smaller)
    (falsified : clause.status smaller = .falsified) :
    clause.status larger = .falsified := by
  unfold status at falsified ⊢
  rw [statusOf_eq_falsified_iff] at falsified ⊢
  intro literal member
  exact Literal.value?_of_extends grows (falsified literal member)

/-- A unit clause stays unit while its literal has no value. -/
theorem status_eq_unit_of_extends {clause : Clause}
    {larger smaller : Valuation} {literal : Literal}
    (grows : larger.Extends smaller)
    (isUnit : clause.status smaller = .unit literal)
    (isOpen : literal.value? larger = none) :
    clause.status larger = .unit literal := by
  unfold status at isUnit ⊢
  rw [statusOf_eq_unit_iff] at isUnit ⊢
  obtain ⟨before, after, split, _, othersFalse⟩ := isUnit
  refine ⟨before, after, split, isOpen, ?_⟩
  intro other member
  exact Literal.value?_of_extends grows (othersFalse other member)

/-- A unit clause is falsified once its literal is false. -/
theorem status_eq_falsified_of_unit {clause : Clause}
    {larger smaller : Valuation} {literal : Literal}
    (grows : larger.Extends smaller)
    (isUnit : clause.status smaller = .unit literal)
    (isFalse : literal.value? larger = some false) :
    clause.status larger = .falsified := by
  unfold status at isUnit ⊢
  rw [statusOf_eq_unit_iff] at isUnit
  rw [statusOf_eq_falsified_iff]
  obtain ⟨before, after, split, _, othersFalse⟩ := isUnit
  rw [split]
  intro other member
  rcases List.mem_append.mp member with early | late
  · exact Literal.value?_of_extends grows
      (othersFalse other (List.mem_append_left after early))
  · rcases List.mem_cons.mp late with rfl | later
    · exact isFalse
    · exact Literal.value?_of_extends grows
        (othersFalse other (List.mem_append_right before later))

end Clause

/-- None of the clauses is falsified or unit under the valuation. -/
def Valuation.IsClosedFor (valuation : Valuation) (clauses : List Clause) :
    Prop :=
  ∀ clause ∈ clauses, clause.status valuation = .satisfied ∨
    clause.status valuation = .undetermined

namespace Valuation.IsClosedFor

theorem of_isSatisfiedBy {valuation : Valuation} {cnf : Cnf}
    (satisfied : cnf.isSatisfiedBy valuation = true) :
    valuation.IsClosedFor cnf.clauses := by
  intro clause member
  have clauseSatisfied := Cnf.isSatisfiedBy_iff.mp satisfied clause member
  exact .inl (Clause.status_eq_satisfied_iff.mpr clauseSatisfied)

/-- A valuation that is closed for the clauses and assigns all their variables
makes every one of them true. -/
theorem isSatisfiedBy {valuation : Valuation} {cnf : Cnf}
    (closed : valuation.IsClosedFor cnf.clauses)
    (total : ∀ name ∈ cnf.names, valuation.contains name = true) :
    cnf.isSatisfiedBy valuation = true := by
  rw [Cnf.isSatisfiedBy_iff]
  intro clause member
  rcases closed clause member with satisfied | undetermined
  · exact Clause.status_eq_satisfied_iff.mp satisfied
  · obtain ⟨literal, inClause, isOpen⟩ :=
      Clause.exists_open_of_statusOf_eq_undetermined undetermined
    have inNames : literal.name ∈ cnf.names :=
      List.mem_flatMap.mpr ⟨clause, member,
        List.mem_map.mpr ⟨literal, inClause, rfl⟩⟩
    have unassigned := (literal.value?_eq_none_iff valuation).mp isOpen
    rw [total literal.name inNames] at unassigned
    cases unassigned

/-- Under a closed extension a clause that was unit is true through its
literal. -/
theorem value?_of_unit {larger smaller : Valuation} {clauses : List Clause}
    (closed : larger.IsClosedFor clauses) (grows : larger.Extends smaller)
    {clause : Clause} (member : clause ∈ clauses) {literal : Literal}
    (isUnit : clause.status smaller = .unit literal) :
    literal.value? larger = some true := by
  cases value : literal.value? larger with
  | none =>
      have stillUnit := Clause.status_eq_unit_of_extends grows isUnit value
      rcases closed clause member with satisfied | undetermined
      · rw [stillUnit] at satisfied
        cases satisfied
      · rw [stillUnit] at undetermined
        cases undetermined
  | some assigned =>
      cases assigned with
      | true => rfl
      | false =>
          have falsified := Clause.status_eq_falsified_of_unit grows isUnit value
          rcases closed clause member with satisfied | undetermined
          · rw [falsified] at satisfied
            cases satisfied
          · rw [falsified] at undetermined
            cases undetermined

/-- No closed valuation extends one that falsifies a clause. -/
theorem not_falsified {larger smaller : Valuation} {clauses : List Clause}
    (closed : larger.IsClosedFor clauses) (grows : larger.Extends smaller)
    {clause : Clause} (member : clause ∈ clauses) :
    clause.status smaller ≠ .falsified := by
  intro falsified
  have stillFalsified := Clause.status_eq_falsified_of_extends grows falsified
  rcases closed clause member with satisfied | undetermined
  · rw [stillFalsified] at satisfied
    cases satisfied
  · rw [stillFalsified] at undetermined
    cases undetermined

end Valuation.IsClosedFor

end PropSat
