import Mathlib.Algebra.BigOperators.Fin
import PropSat.Proofs.ClauseMeaning

/-!
# The clause form as a translation in one pass

The clause form is found by pushing negations inwards, one level at a time,
and each push can make the tree larger.  It is still what a single pass over
the formula gives, clause for clause and literal for literal: the clauses of a
formula and those of its negation are read off together, joined under one
polarity and multiplied out under the other.

The rules of such a pass determine it, and are stated without the recursion
that multiplies out: the clause at each place of a product is found from the
place alone, by division, as the digits of a number with mixed bases.  How
many clauses and literals the translation makes follows from the same rules.
-/

namespace PropSat

namespace Cnf

/-- The clauses of a product of lists are put together from one clause of each
list, in the order of the lists.  The choice from the last list varies
fastest: the choice from a list moves on when those from all lists after it
have gone round. -/
structure IsProduct (lists : List (List Clause)) (product : List Clause) :
    Prop where
  length_eq : product.length = (lists.map List.length).prod
  joins : ∀ index clause, product[index]? = some clause →
    ∃ picked : List Clause, clause = .concat picked ∧
      picked.length = lists.length ∧
      ∀ place options, lists[place]? = some options →
        picked[place]? = options[index /
          ((lists.drop (place + 1)).map List.length).prod %
            options.length]?

theorem length_choices (lists : List (List Clause)) :
    (choices lists).length = (lists.map List.length).prod := by
  induction lists with
  | nil => rfl
  | cons options rest induction =>
      simp [choices, List.length_flatMap, induction, List.map_const']

/-- In a row of blocks of the same width the place of an element is found by
division. -/
theorem getElem?_flatMap {α β : Type} {options : List α} {block : α → List β}
    {width : Nat} (positive : 0 < width)
    (same : ∀ option ∈ options, (block option).length = width)
    (index : Nat) :
    (options.flatMap block)[index]? =
      options[index / width]?.bind fun option =>
        (block option)[index % width]? := by
  induction options generalizing index with
  | nil => rfl
  | cons option rest induction =>
      have length := same option List.mem_cons_self
      have restSame := fun other member =>
        same other (List.mem_cons_of_mem option member)
      rw [List.flatMap_cons, List.getElem?_append, length]
      split
      · next inside =>
          rw [Nat.div_eq_of_lt inside, Nat.mod_eq_of_lt inside]
          rfl
      · next outside =>
          have large : width ≤ index := Nat.le_of_not_lt outside
          rw [induction restSame, Nat.div_eq_sub_div positive large,
            Nat.mod_eq_sub_mod large]
          rfl

/-- Where a list stands in a product, its choice does not depend on what the
lists before it are. -/
theorem mod_div_mod_of_getElem? {lists : List (List Clause)} {place : Nat}
    {options : List Clause} (found : lists[place]? = some options)
    (index : Nat) :
    index % (lists.map List.length).prod /
          ((lists.drop (place + 1)).map List.length).prod %
        options.length =
      index / ((lists.drop (place + 1)).map List.length).prod %
        options.length := by
  obtain ⟨inside, rfl⟩ := List.getElem?_eq_some_iff.mp found
  have split : (lists.map List.length).prod =
      ((lists.drop (place + 1)).map List.length).prod *
        (lists[place].length * ((lists.take place).map List.length).prod) := by
    calc
      _ = ((lists.take place ++ lists.drop place).map List.length).prod := by
        rw [List.take_append_drop]
      _ = _ := by
        rw [List.drop_eq_getElem_cons inside, List.map_append,
          List.prod_append, List.map_cons, List.prod_cons]
        ac_rfl
  rw [split, Nat.mod_mul_right_div_self, Nat.mod_mul_right_mod]

theorem choices_isProduct (lists : List (List Clause)) :
    IsProduct lists (choices lists) := by
  refine ⟨length_choices lists, ?_⟩
  induction lists with
  | nil =>
      intro index clause found
      cases index with
      | zero =>
          cases found
          exact ⟨[], rfl, rfl, nofun⟩
      | succ index => cases found
  | cons options rest induction =>
      intro index clause found
      have positive : 0 < (choices rest).length := by
        rw [List.length_pos_iff]
        intro noTails
        simp [choices, noTails] at found
      rw [choices, getElem?_flatMap positive (by simp)] at found
      obtain ⟨first, isFirst, found⟩ := Option.bind_eq_some_iff.mp found
      rw [List.getElem?_map] at found
      obtain ⟨tail, isTail, rfl⟩ := Option.map_eq_some_iff.mp found
      obtain ⟨picked, rfl, length, fromRest⟩ := induction _ _ isTail
      refine ⟨first :: picked, rfl, by simp [length], ?_⟩
      intro place others isList
      rw [length_choices] at isFirst
      cases place with
      | zero =>
          cases isList
          obtain ⟨inside, _⟩ := List.getElem?_eq_some_iff.mp isFirst
          rw [List.drop_succ_cons, List.drop_zero, Nat.mod_eq_of_lt inside]
          exact isFirst.symm
      | succ place =>
          rw [List.getElem?_cons_succ] at isList ⊢
          rw [fromRest place others isList, length_choices,
            mod_div_mod_of_getElem? isList]
          rfl

theorem IsProduct.unique {lists : List (List Clause)}
    {product other : List Clause} (first : IsProduct lists product)
    (second : IsProduct lists other) : product = other := by
  have sameLength : product.length = other.length :=
    first.length_eq.trans second.length_eq.symm
  refine List.ext_getElem sameLength ?_
  intro index inProduct inOther
  obtain ⟨picked, joined, length, fromLists⟩ :=
    first.joins index _ (List.getElem?_eq_getElem inProduct)
  obtain ⟨otherPicked, otherJoined, otherLength, otherFromLists⟩ :=
    second.joins index _ (List.getElem?_eq_getElem inOther)
  have samePicked : picked = otherPicked := by
    refine List.ext_getElem? ?_
    intro place
    cases isList : lists[place]? with
    | some options =>
        rw [fromLists place options isList,
          otherFromLists place options isList]
    | none =>
        have outside := List.getElem?_eq_none_iff.mp isList
        rw [List.getElem?_eq_none (by omega),
          List.getElem?_eq_none (by omega)]
  rw [joined, otherJoined, samePicked]

theorem clauses_conjoin (sets : List Cnf) :
    (conjoin sets).clauses = (sets.map clauses).flatten :=
  List.flatMap_def

theorem disjoin_isProduct (sets : List Cnf) :
    IsProduct (sets.map clauses) (disjoin sets).clauses := by
  rw [clauses_disjoin]
  exact choices_isProduct _

section Sizes

variable {α : Type} (set : α → Cnf) (items : List α)

theorem size_conjoin_map :
    (conjoin (items.map set)).size =
      (items.map fun item => (set item).size).sum := by
  simp only [size, conjoin, List.length_flatMap, List.map_map]
  rfl

theorem size_disjoin_map :
    (disjoin (items.map set)).size =
      (items.map fun item => (set item).size).prod := by
  rw [size, clauses_disjoin, length_choices, List.map_map, List.map_map]
  rfl

theorem literalCount_eq_sum (cnf : Cnf) :
    cnf.literalCount = (cnf.clauses.map Clause.size).sum := by
  simp only [literalCount, names, List.length_flatMap, Clause.names,
    List.length_map]
  rfl

theorem literalCount_conjoin_map :
    (conjoin (items.map set)).literalCount =
      (items.map fun item => (set item).literalCount).sum := by
  rw [literalCount_eq_sum, conjoin]
  induction items with
  | nil => rfl
  | cons item rest induction =>
      rw [List.map_cons, List.flatMap_cons, List.map_append, List.sum_append,
        induction, List.map_cons, List.sum_cons, literalCount_eq_sum]

theorem sum_size_map_append (first : Clause) (tails : List Clause) :
    ((tails.map (first ++ ·)).map Clause.size).sum =
      first.size * tails.length + (tails.map Clause.size).sum := by
  induction tails with
  | nil => rfl
  | cons tail rest induction =>
      have joined : (first ++ tail).size = first.size + tail.size :=
        List.length_append
      simp only [List.map_cons, List.sum_cons, induction, joined,
        List.length_cons, Nat.mul_succ]
      omega

/-- Every option is repeated for all tails, and every tail for all options. -/
theorem sum_size_choices_cons (options : List Clause)
    (rest : List (List Clause)) :
    ((choices (options :: rest)).map Clause.size).sum =
      (options.map Clause.size).sum * (choices rest).length +
        options.length * ((choices rest).map Clause.size).sum := by
  rw [choices]
  induction options with
  | nil => simp
  | cons first others induction =>
      simp only [List.flatMap_cons, List.map_append, List.sum_append,
        List.map_cons, List.sum_cons, List.length_cons,
        sum_size_map_append] at induction ⊢
      rw [induction, Nat.add_mul, Nat.add_mul]
      omega

theorem literalCount_disjoin_map :
    (disjoin (items.map set)).literalCount =
      ∑ place : Fin items.length, (set items[place]).literalCount *
        ((items.eraseIdx place).map fun item => (set item).size).prod := by
  rw [literalCount_eq_sum, clauses_disjoin]
  induction items with
  | nil => rfl
  | cons item rest induction =>
      simp only [List.map_cons, List.length_cons]
      rw [sum_size_choices_cons, induction, length_choices, Fin.sum_univ_succ,
        Finset.mul_sum]
      congr 1
      · rw [← literalCount_eq_sum, List.map_map, List.map_map]
        rfl
      · refine Finset.sum_congr rfl ?_
        intro place _
        rw [Nat.mul_left_comm]
        rfl

end Sizes

end Cnf

namespace Formula

theorem clauses_eq : clauses = polarityClauses true :=
  funext clauses_eq_polarityClauses

theorem clauses_neg (operand : Formula) :
    (neg operand).clauses = operand.polarityClauses false := by
  rw [clauses_eq_polarityClauses, polarityClauses]
  rfl

theorem clauses_conj (operands : List Formula) :
    (conj operands).clauses = .conjoin (operands.map clauses) := by
  rw [clauses_eq, polarityClauses_conj, if_pos rfl]

theorem clauses_disj (operands : List Formula) :
    (disj operands).clauses = .disjoin (operands.map clauses) := by
  rw [clauses_eq, polarityClauses_disj, if_pos rfl]

theorem clauses_neg_conj (operands : List Formula) :
    (neg (conj operands)).clauses =
      .disjoin (operands.map fun operand => (neg operand).clauses) := by
  simp only [clauses_neg]
  rw [polarityClauses_conj, if_neg Bool.false_ne_true]

theorem clauses_neg_disj (operands : List Formula) :
    (neg (disj operands)).clauses =
      .conjoin (operands.map fun operand => (neg operand).clauses) := by
  simp only [clauses_neg]
  rw [polarityClauses_disj, if_neg Bool.false_ne_true]

/-- The clause form, down to a bound on the depth of the recursion; `none`
means that the bound was reached. -/
def clausesWithin : Nat → Formula → Option Cnf
  | 0, _ => none
  | _ + 1, .const true => some ∅
  | _ + 1, .const false => some .contradiction
  | _ + 1, .atom name => some (.unit (.positive name))
  | bound + 1, .neg operand =>
      match operand.atomName? with
      | some name => some (.unit (.negative name))
      | none => clausesWithin bound operand.pushNegation
  | bound + 1, .conj operands =>
      (operands.mapM (clausesWithin bound)).map .conjoin
  | bound + 1, .disj operands =>
      (operands.mapM (clausesWithin bound)).map .disjoin

theorem mapM_clausesWithin {bound : Nat} {operands : List Formula}
    (found : ∀ operand ∈ operands,
      clausesWithin bound operand = some operand.clauses) :
    operands.mapM (clausesWithin bound) = some (operands.map clauses) := by
  induction operands with
  | nil => rfl
  | cons operand rest induction =>
      obtain ⟨first, others⟩ := List.forall_mem_cons.mp found
      rw [List.mapM_cons, first, induction others]
      rfl

/-- The recursion is no deeper than the weight of the formula, which every
step lowers although pushing a negation can make the tree larger. -/
theorem clausesWithin_eq {bound : Nat} {formula : Formula}
    (enough : formula.weight ≤ bound) :
    clausesWithin bound formula = some formula.clauses := by
  induction bound generalizing formula with
  | zero =>
      have positive := formula.weight_pos
      omega
  | succ bound induction =>
      have operandsFound {operands : List Formula}
          (light : weightList operands ≤ bound) :
          operands.mapM (clausesWithin bound) =
            some (operands.map clauses) :=
        mapM_clausesWithin fun operand member =>
          induction ((weight_le_weightList member).trans light)
      cases formula with
      | const value => cases value <;> rw [clausesWithin, clauses]
      | atom name => rw [clausesWithin, clauses]
      | neg operand =>
          rw [clausesWithin, clauses]
          cases compound : operand.atomName? with
          | some name => rfl
          | none =>
              have lighter := weight_pushNegation_lt compound
              exact induction (by omega)
      | conj operands =>
          rw [weight] at enough
          rw [clausesWithin, operandsFound (by omega), clauses_conj]
          rfl
      | disj operands =>
          rw [weight] at enough
          rw [clausesWithin, operandsFound (by omega), clauses_disj]
          rfl

/-- The rules by which the clauses of a formula, or of its negation, are read
off in one pass over the tree. -/
structure IsPolarityTranslation (translate : Bool → Formula → Cnf) :
    Prop where
  const : ∀ positive value, (translate positive (.const value)).clauses =
    if value = positive then [] else [.empty]
  atom : ∀ positive name, (translate positive (.atom name)).clauses =
    [.unit ⟨name, positive⟩]
  neg : ∀ positive operand,
    (translate positive (.neg operand)).clauses =
      (translate (!positive) operand).clauses
  conj : ∀ operands, (translate true (.conj operands)).clauses =
    (operands.map fun operand => (translate true operand).clauses).flatten
  disj : ∀ operands, Cnf.IsProduct
    (operands.map fun operand => (translate true operand).clauses)
    (translate true (.disj operands)).clauses
  neg_conj : ∀ operands, Cnf.IsProduct
    (operands.map fun operand => (translate false operand).clauses)
    (translate false (.conj operands)).clauses
  neg_disj : ∀ operands, (translate false (.disj operands)).clauses =
    (operands.map fun operand => (translate false operand).clauses).flatten

theorem polarityClauses_isPolarityTranslation :
    IsPolarityTranslation polarityClauses where
  const positive value := by
    rw [polarityClauses]
    split <;> rfl
  atom positive name := by
    rw [polarityClauses]
    rfl
  neg positive operand := by
    rw [polarityClauses]
  conj operands := by
    rw [polarityClauses_conj, if_pos rfl, Cnf.clauses_conjoin, List.map_map]
    rfl
  disj operands := by
    have product :=
      Cnf.disjoin_isProduct (operands.map (polarityClauses true))
    rw [polarityClauses_disj, if_pos rfl]
    rwa [List.map_map] at product
  neg_conj operands := by
    have product :=
      Cnf.disjoin_isProduct (operands.map (polarityClauses false))
    rw [polarityClauses_conj, if_neg Bool.false_ne_true]
    rwa [List.map_map] at product
  neg_disj operands := by
    rw [polarityClauses_disj, if_neg Bool.false_ne_true,
      Cnf.clauses_conjoin, List.map_map]
    rfl

namespace IsPolarityTranslation

variable {translate other : Bool → Formula → Cnf}

mutual

/-- The rules leave no choice: they go through the formula from the leaves
upwards. -/
theorem unique (first : IsPolarityTranslation translate)
    (second : IsPolarityTranslation other) (positive : Bool)
    (formula : Formula) :
    (translate positive formula).clauses =
      (other positive formula).clauses := by
  cases formula with
  | const value => rw [first.const, second.const]
  | atom name => rw [first.atom, second.atom]
  | neg operand =>
      rw [first.neg, second.neg, unique first second (!positive) operand]
  | conj operands =>
      have same := map_unique first second positive operands
      cases positive with
      | true => rw [first.conj, second.conj, same]
      | false =>
          have product := first.neg_conj operands
          rw [same] at product
          exact product.unique (second.neg_conj operands)
  | disj operands =>
      have same := map_unique first second positive operands
      cases positive with
      | true =>
          have product := first.disj operands
          rw [same] at product
          exact product.unique (second.disj operands)
      | false => rw [first.neg_disj, second.neg_disj, same]

theorem map_unique (first : IsPolarityTranslation translate)
    (second : IsPolarityTranslation other) (positive : Bool)
    (operands : List Formula) :
    (operands.map fun operand => (translate positive operand).clauses) =
      operands.map fun operand => (other positive operand).clauses := by
  cases operands with
  | nil => rfl
  | cons operand rest =>
      rw [List.map_cons, List.map_cons, unique first second positive operand,
        map_unique first second positive rest]

end

end IsPolarityTranslation

/-- The recursion that pushes negations inwards ends, at a depth of no more
than the weight, with the clauses that the rules of the one-pass translation
determine.  The numbers of clauses are added up over the operands of one
connective and multiplied over those of the other; with each literal of an
operand stands every choice of clauses from the other operands. -/
theorem clauses_translate_by_polarity :
    (∀ formula bound, weight formula ≤ bound →
      clausesWithin bound formula = some formula.clauses) ∧
    IsPolarityTranslation polarityClauses ∧
    (∀ translate, IsPolarityTranslation translate → ∀ formula,
      formula.clauses.clauses = (translate true formula).clauses ∧
      (neg formula).clauses.clauses = (translate false formula).clauses) ∧
    ∀ operands,
      (conj operands).clauses.size =
        (operands.map fun operand => operand.clauses.size).sum ∧
      (disj operands).clauses.size =
        (operands.map fun operand => operand.clauses.size).prod ∧
      (neg (conj operands)).clauses.size =
        (operands.map fun operand => (neg operand).clauses.size).prod ∧
      (neg (disj operands)).clauses.size =
        (operands.map fun operand => (neg operand).clauses.size).sum ∧
      (conj operands).clauses.literalCount =
        (operands.map fun operand => operand.clauses.literalCount).sum ∧
      (disj operands).clauses.literalCount =
        ∑ place : Fin operands.length,
          operands[place].clauses.literalCount *
            ((operands.eraseIdx place).map fun operand =>
              operand.clauses.size).prod ∧
      (neg (conj operands)).clauses.literalCount =
        ∑ place : Fin operands.length,
          (neg operands[place]).clauses.literalCount *
            ((operands.eraseIdx place).map fun operand =>
              (neg operand).clauses.size).prod ∧
      (neg (disj operands)).clauses.literalCount =
        (operands.map fun operand =>
          (neg operand).clauses.literalCount).sum := by
  refine ⟨?_, polarityClauses_isPolarityTranslation, ?_, ?_⟩
  · intro formula bound enough
    exact clausesWithin_eq enough
  · intro translate rules formula
    have same := polarityClauses_isPolarityTranslation.unique rules
    rw [clauses_eq_polarityClauses, clauses_neg]
    exact ⟨same true formula, same false formula⟩
  · intro operands
    rw [clauses_conj, clauses_disj, clauses_neg_conj, clauses_neg_disj]
    exact ⟨Cnf.size_conjoin_map _ _, Cnf.size_disjoin_map _ _,
      Cnf.size_disjoin_map _ _, Cnf.size_conjoin_map _ _,
      Cnf.literalCount_conjoin_map _ _, Cnf.literalCount_disjoin_map _ _,
      Cnf.literalCount_disjoin_map _ _, Cnf.literalCount_conjoin_map _ _⟩

end Formula

end PropSat
