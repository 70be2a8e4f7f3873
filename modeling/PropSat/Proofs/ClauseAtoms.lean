import PropSat.Proofs.ClauseMeaning

/-!
# The variables of a clause form

The clause form of a formula has no variable that is not an atom of the
formula.  It may have fewer: an atom of an operand that is dropped, because
another operand of the disjunction is true, occurs in no clause.
-/

namespace PropSat

theorem Clause.mem_names_append_iff {first second : Clause} {name : String} :
    name ∈ (first ++ second).names ↔
      name ∈ first.names ∨ name ∈ second.names := by
  change name ∈ (first.literals ++ second.literals).map Literal.name ↔ _
  rw [List.map_append, List.mem_append]
  rfl

namespace Cnf

variable {name : String}

theorem mem_names_iff {cnf : Cnf} :
    name ∈ cnf.names ↔ ∃ clause ∈ cnf.clauses, name ∈ clause.names := by
  rw [names, List.mem_flatMap]

theorem mem_names_conjoin_iff {sets : List Cnf} :
    name ∈ (conjoin sets).names ↔ ∃ set ∈ sets, name ∈ set.names := by
  simp only [mem_names_iff, conjoin, List.mem_flatMap]
  constructor
  · rintro ⟨clause, ⟨set, isSet, inSet⟩, member⟩
    exact ⟨set, isSet, clause, inSet, member⟩
  · rintro ⟨set, isSet, clause, inSet, member⟩
    exact ⟨clause, ⟨set, isSet, inSet⟩, member⟩

/-- A clause that is put together has only names of the clauses picked. -/
theorem exists_mem_of_mem_choices {lists : List (List Clause)}
    {clause : Clause} (chosen : clause ∈ choices lists)
    (member : name ∈ clause.names) :
    ∃ options ∈ lists, ∃ option ∈ options, name ∈ option.names := by
  induction lists generalizing clause with
  | nil =>
      rw [choices, List.mem_singleton] at chosen
      subst chosen
      cases member
  | cons options rest induction =>
      simp only [choices, List.mem_flatMap, List.mem_map] at chosen
      obtain ⟨first, isOption, tail, isTail, rfl⟩ := chosen
      rcases Clause.mem_names_append_iff.mp member with inFirst | inTail
      · exact ⟨options, List.mem_cons_self, first, isOption, inFirst⟩
      · obtain ⟨others, isList, found⟩ := induction isTail inTail
        exact ⟨others, List.mem_cons_of_mem _ isList, found⟩

theorem exists_mem_of_mem_names_disjoin {sets : List Cnf}
    (member : name ∈ (disjoin sets).names) :
    ∃ set ∈ sets, name ∈ set.names := by
  obtain ⟨clause, chosen, inClause⟩ := mem_names_iff.mp member
  rw [clauses_disjoin] at chosen
  obtain ⟨options, isList, option, isOption, inOption⟩ :=
    exists_mem_of_mem_choices chosen inClause
  obtain ⟨set, isSet, rfl⟩ := List.mem_map.mp isList
  exact ⟨set, isSet, mem_names_iff.mpr ⟨option, isOption, inOption⟩⟩

end Cnf

namespace Formula

variable {name : String}

mutual

theorem mem_atoms_of_mem_polarityClauses (positive : Bool)
    (formula : Formula)
    (member : name ∈ (formula.polarityClauses positive).names) :
    name ∈ formula.atoms := by
  cases formula with
  | const value =>
      simp only [polarityClauses] at member
      split at member <;> cases member
  | atom given =>
      simpa [polarityClauses, Cnf.unit, Cnf.names, Clause.unit, Clause.names,
        atoms] using member
  | neg operand =>
      rw [polarityClauses] at member
      exact mem_atoms_of_mem_polarityClauses (!positive) operand member
  | conj operands =>
      apply mem_atomsList_of_mem_polarityClauses positive operands
      rw [polarityClauses_conj] at member
      split at member
      · exact Cnf.mem_names_conjoin_iff.mp member
      · exact Cnf.exists_mem_of_mem_names_disjoin member
  | disj operands =>
      apply mem_atomsList_of_mem_polarityClauses positive operands
      rw [polarityClauses_disj] at member
      split at member
      · exact Cnf.exists_mem_of_mem_names_disjoin member
      · exact Cnf.mem_names_conjoin_iff.mp member

theorem mem_atomsList_of_mem_polarityClauses (positive : Bool)
    (operands : List Formula)
    (found : ∃ set ∈ operands.map (polarityClauses positive),
      name ∈ set.names) :
    name ∈ atomsList operands := by
  cases operands with
  | nil =>
      obtain ⟨_, isSet, _⟩ := found
      cases isSet
  | cons operand rest =>
      obtain ⟨set, isSet, member⟩ := found
      rcases List.mem_cons.mp isSet with rfl | later
      · exact List.mem_append_left _
          (mem_atoms_of_mem_polarityClauses positive operand member)
      · exact List.mem_append_right _
          (mem_atomsList_of_mem_polarityClauses positive rest
            ⟨set, later, member⟩)

end

theorem mem_atoms_of_mem_clauses {formula : Formula}
    (member : name ∈ formula.clauses.names) : name ∈ formula.atoms := by
  rw [clauses_eq_polarityClauses] at member
  exact mem_atoms_of_mem_polarityClauses true formula member

end Formula

end PropSat
