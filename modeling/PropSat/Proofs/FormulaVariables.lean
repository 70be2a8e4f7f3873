import PropSat.Proofs.ClauseAtoms
import PropSat.Proofs.FirstOccurrences

/-!
# The variables of a formula and of its clauses

The variables are collected twice, as a set and as a list by their first
occurrences, and occur a third time in the clause form.  The clause form drops
a variable only with an operand that has no clause, so that it drops none where
no constant and no empty connective occurs.
-/

namespace PropSat

namespace Cnf

/-- There is a clause, and every one of the names occurs in some clause. -/
structure Mentions (cnf : Cnf) (names : List String) : Prop where
  ne_nil : cnf.clauses ≠ []
  mem_names : ∀ name ∈ names, name ∈ cnf.names

theorem choices_ne_nil {lists : List (List Clause)}
    (someOption : ∀ options ∈ lists, options ≠ []) : choices lists ≠ [] := by
  induction lists with
  | nil => exact List.cons_ne_nil _ _
  | cons options rest induction =>
      obtain ⟨first, others⟩ := List.forall_mem_cons.mp someOption
      obtain ⟨option, isOption⟩ := List.exists_mem_of_ne_nil _ first
      obtain ⟨tail, isTail⟩ := List.exists_mem_of_ne_nil _ (induction others)
      refine List.ne_nil_of_mem (a := option ++ tail) ?_
      exact List.mem_flatMap.mpr
        ⟨option, isOption, List.mem_map.mpr ⟨tail, isTail, rfl⟩⟩

/-- Every option is picked somewhere, as long as there is something to pick
from all other lists. -/
theorem exists_choice_of_option {lists : List (List Clause)}
    (someOption : ∀ options ∈ lists, options ≠ []) {options : List Clause}
    (isList : options ∈ lists) {option : Clause} (isOption : option ∈ options) :
    ∃ clause ∈ choices lists, ∀ name ∈ option.names, name ∈ clause.names := by
  induction lists with
  | nil => cases isList
  | cons first rest induction =>
      obtain ⟨someFirst, someRest⟩ := List.forall_mem_cons.mp someOption
      have joins {head tail : Clause} (isHead : head ∈ first)
          (isTail : tail ∈ choices rest) :
          head ++ tail ∈ choices (first :: rest) :=
        List.mem_flatMap.mpr
          ⟨head, isHead, List.mem_map.mpr ⟨tail, isTail, rfl⟩⟩
      rcases List.mem_cons.mp isList with rfl | later
      · obtain ⟨tail, isTail⟩ :=
          List.exists_mem_of_ne_nil _ (choices_ne_nil someRest)
        refine ⟨option ++ tail, joins isOption isTail, ?_⟩
        intro name member
        exact Clause.mem_names_append_iff.mpr (.inl member)
      · obtain ⟨tail, isTail, inTail⟩ := induction someRest later
        obtain ⟨head, isHead⟩ := List.exists_mem_of_ne_nil _ someFirst
        refine ⟨head ++ tail, joins isHead isTail, ?_⟩
        intro name member
        exact Clause.mem_names_append_iff.mpr (.inr (inTail name member))

end Cnf

namespace Formula

mutual

/-- Puts the name at every atom occurrence into a set of names. -/
def insertAtoms (into : NameSet) : Formula → NameSet
  | .const _ => into
  | .atom name => into.insert name
  | .neg operand => insertAtoms into operand
  | .conj operands => insertAtomsList into operands
  | .disj operands => insertAtomsList into operands

def insertAtomsList (into : NameSet) : List Formula → NameSet
  | [] => into
  | operand :: rest => insertAtomsList (insertAtoms into operand) rest

end

variable {name : String}

mutual

theorem mem_insertAtoms_iff (into : NameSet) (formula : Formula) :
    name ∈ insertAtoms into formula ↔ name ∈ into ∨ name ∈ formula.atoms := by
  cases formula with
  | const value => simp [insertAtoms, atoms]
  | atom given =>
      rw [insertAtoms, NameSet.mem_insert_iff, atoms, List.mem_singleton]
  | neg operand =>
      rw [insertAtoms, atoms, mem_insertAtoms_iff into operand]
  | conj operands =>
      rw [insertAtoms, atoms, mem_insertAtomsList_iff into operands]
  | disj operands =>
      rw [insertAtoms, atoms, mem_insertAtomsList_iff into operands]

theorem mem_insertAtomsList_iff (into : NameSet) (operands : List Formula) :
    name ∈ insertAtomsList into operands ↔
      name ∈ into ∨ name ∈ atomsList operands := by
  cases operands with
  | nil => simp [insertAtomsList, atomsList]
  | cons operand rest =>
      rw [insertAtomsList, mem_insertAtomsList_iff (insertAtoms into operand),
        mem_insertAtoms_iff into operand, atomsList, List.mem_append, or_assoc]

end

/-- The set of variables is the one that a traversal of its own collects. -/
theorem insertAtoms_empty (formula : Formula) :
    insertAtoms ∅ formula = formula.vars := by
  refine Std.ExtTreeSet.ext_mem fun name => ?_
  rw [mem_insertAtoms_iff, mem_vars_iff_mem_atoms]
  simp

/-- No constant occurs, and no connective without operands. -/
inductive IsSolid : Formula → Prop where
  | atom (name : String) : IsSolid (.atom name)
  | neg {operand : Formula} : IsSolid operand → IsSolid (.neg operand)
  | conj {operands : List Formula} : operands ≠ [] →
      (∀ operand ∈ operands, IsSolid operand) → IsSolid (.conj operands)
  | disj {operands : List Formula} : operands ≠ [] →
      (∀ operand ∈ operands, IsSolid operand) → IsSolid (.disj operands)

section Operands

variable {operands : List Formula} {set : Formula → Cnf}

theorem mentions_conjoin (someOperand : operands ≠ [])
    (mentions : ∀ operand ∈ operands, (set operand).Mentions operand.atoms) :
    (Cnf.conjoin (operands.map set)).Mentions (atomsList operands) where
  ne_nil := by
    obtain ⟨operand, isOperand⟩ := List.exists_mem_of_ne_nil _ someOperand
    obtain ⟨clause, isClause⟩ :=
      List.exists_mem_of_ne_nil _ (mentions operand isOperand).ne_nil
    refine List.ne_nil_of_mem (a := clause) ?_
    exact List.mem_flatMap.mpr
      ⟨set operand, List.mem_map_of_mem isOperand, isClause⟩
  mem_names := by
    intro name member
    obtain ⟨operand, isOperand, inOperand⟩ := mem_atomsList_iff.mp member
    exact Cnf.mem_names_conjoin_iff.mpr ⟨set operand,
      List.mem_map_of_mem isOperand,
      (mentions operand isOperand).mem_names name inOperand⟩

/-- In a product no operand hides the variables of another, since each has a
clause to pick. -/
theorem mentions_disjoin
    (mentions : ∀ operand ∈ operands, (set operand).Mentions operand.atoms) :
    (Cnf.disjoin (operands.map set)).Mentions (atomsList operands) := by
  have someOption : ∀ options ∈ (operands.map set).map Cnf.clauses,
      options ≠ [] := by
    simp only [List.forall_mem_map]
    intro operand isOperand
    exact (mentions operand isOperand).ne_nil
  refine ⟨?_, ?_⟩
  · rw [Cnf.clauses_disjoin]
    exact Cnf.choices_ne_nil someOption
  · intro name member
    obtain ⟨operand, isOperand, inOperand⟩ := mem_atomsList_iff.mp member
    obtain ⟨option, isOption, inOption⟩ := Cnf.mem_names_iff.mp
      ((mentions operand isOperand).mem_names name inOperand)
    obtain ⟨clause, isChoice, keeps⟩ := Cnf.exists_choice_of_option someOption
      (List.mem_map_of_mem (List.mem_map_of_mem isOperand)) isOption
    rw [← Cnf.clauses_disjoin] at isChoice
    exact Cnf.mem_names_iff.mpr ⟨clause, isChoice, keeps name inOption⟩

end Operands

/-- The clauses of a formula and those of its negation mention every atom. -/
theorem IsSolid.mentions_polarityClauses {formula : Formula}
    (solid : formula.IsSolid) (positive : Bool) :
    (formula.polarityClauses positive).Mentions formula.atoms := by
  induction solid generalizing positive with
  | atom given =>
      refine ⟨List.cons_ne_nil _ _, ?_⟩
      simp [polarityClauses, Cnf.unit, Cnf.names, Clause.unit, Clause.names,
        atoms]
  | neg _ induction =>
      rw [polarityClauses, atoms]
      exact induction !positive
  | conj someOperand _ induction =>
      rw [polarityClauses_conj, atoms]
      split
      · exact mentions_conjoin someOperand fun operand isOperand =>
          induction operand isOperand positive
      · exact mentions_disjoin fun operand isOperand =>
          induction operand isOperand positive
  | disj someOperand _ induction =>
      rw [polarityClauses_disj, atoms]
      split
      · exact mentions_disjoin fun operand isOperand =>
          induction operand isOperand positive
      · exact mentions_conjoin someOperand fun operand isOperand =>
          induction operand isOperand positive

/-- The variables in order are the first occurrences among the atoms from left
to right, none of them twice, and the same as the set of variables, which is
collected in a traversal of its own.  The clauses have no variable but these.
They have all of them, and are not without a clause, if no constant and no
connective without operands occurs. -/
theorem variables_agree_with_clauses (formula : Formula) :
    formula.varsInOrder.Nodup ∧
    (∀ found, Names.FirstOccurrences formula.atoms found ↔
      found = formula.varsInOrder) ∧
    insertAtoms ∅ formula = formula.vars ∧
    (∀ name, name ∈ formula.varsInOrder ↔ name ∈ formula.vars) ∧
    (∀ name, name ∈ formula.clauses.vars → name ∈ formula.vars) ∧
    (formula.IsSolid →
      0 < formula.clauses.size ∧ formula.clauses.vars = formula.vars) := by
  have first : Names.FirstOccurrences formula.atoms formula.varsInOrder :=
    Names.distinct_firstOccurrences formula.atoms
  refine ⟨first.nodup, ?unique, insertAtoms_empty formula, ?members,
    ?fromClauses, ?solid⟩
  case unique =>
    intro found
    exact ⟨fun other => other.unique first, fun same => same ▸ first⟩
  case members =>
    intro name
    rw [first.mem_iff, mem_vars_iff_mem_atoms]
  case fromClauses =>
    intro name member
    rw [← Std.ExtTreeSet.mem_toList, Cnf.mem_vars_iff] at member
    exact mem_vars_iff_mem_atoms.mpr (mem_atoms_of_mem_clauses member)
  case solid =>
    intro solid
    have mentions := solid.mentions_polarityClauses true
    rw [← clauses_eq_polarityClauses] at mentions
    refine ⟨List.length_pos_iff.mpr mentions.ne_nil, ?_⟩
    refine Std.ExtTreeSet.ext_mem fun name => ?_
    rw [← Std.ExtTreeSet.mem_toList, Cnf.mem_vars_iff, mem_vars_iff_mem_atoms]
    exact ⟨mem_atoms_of_mem_clauses, mentions.mem_names name⟩

/-- Both connectives under both polarities, and an atom that occurs twice. -/
theorem variables_agree_with_clauses_nested :
    let formula := neg (.disj [.atom "b", .conj [.neg (.atom "a"), .atom "b"]])
    formula.IsSolid ∧ formula.clauses.vars = formula.vars := by
  intro formula
  have inner : IsSolid (.conj [.neg (.atom "a"), .atom "b"]) :=
    .conj (List.cons_ne_nil _ _) (List.forall_mem_cons.mpr
      ⟨.neg (.atom "a"), List.forall_mem_singleton.mpr (.atom "b")⟩)
  have solid : formula.IsSolid :=
    .neg (.disj (List.cons_ne_nil _ _) (List.forall_mem_cons.mpr
      ⟨.atom "b", List.forall_mem_singleton.mpr inner⟩))
  obtain ⟨_, _, _, _, _, keeps⟩ := variables_agree_with_clauses formula
  exact ⟨solid, (keeps solid).2⟩

end Formula

end PropSat
