import PropSat.Families
import PropSat.Proofs.ClosedFormulas
import PropSat.Proofs.RootDecision
import Std.Data.String.ToNat

/-!
# Chains of equivalences

A chain links every variable with the next one, by equality or by difference,
and fixes the values of some variables, the first one among them.  From the
first value each link gives the next one, so that a closed valuation has the
same values as a satisfying one: there is a single way to assign the chain, and
the only question left is whether the other fixed values fit it.

Both families of chains are of this kind.  What propagation does with them
follows without a look at its passes.  It finds all values if the fixed ones
fit, and a conflict if they do not, and there is nothing left to be decided.
-/

namespace PropSat.Families

def chainName (position : Nat) : String :=
  "a" ++ "_" ++ toString position

/-- The value at a position, if the first value is given and some links flip
the value. -/
def chainValue (flips : Nat → Bool) (first : Bool) : Nat → Bool
  | 0 => first
  | position + 1 => chainValue flips first position ^^ flips position

/-- The next variable has the same value, or the other one if the link flips
it. -/
def link (flips : Nat → Bool) (position : Nat) : Formula :=
  .iff (Literal.positive (chainName position)).formula
    (Literal.mk (chainName (position + 1)) !flips position).formula

/-- A chain of a number of variables, with the values of those at some
positions fixed. -/
def linkedChain (flips : Nat → Bool) (length : Nat)
    (fixedValues : List (Nat × Bool)) : Formula :=
  .conj ((List.range (length - 1)).map (link flips) ++
    fixedValues.map fun entry =>
      (Literal.mk (chainName entry.1) entry.2).formula)

def headValue (length : Nat) (first : Bool) : List (Nat × Bool) :=
  if length = 0 then [] else [(0, first)]

/-- The values that `chainWithEnds` fixes, both of one variable if there is no
other. -/
def endValues (length : Nat) (first last : Bool) : List (Nat × Bool) :=
  if length = 0 then [] else [(0, first), (length - 1, last)]

section Shape

theorem chainAtoms_zip_tail (length : Nat) :
    (chainAtoms length).zip (chainAtoms length).tail =
      (List.range (length - 1)).map fun position =>
        (.atom (chainName position), .atom (chainName (position + 1))) := by
  apply List.ext_getElem
  · simp [chainAtoms, Names.numbered]
  · intro position _ _
    simp [chainAtoms, Names.numbered, chainName]

theorem zipIdx_map_range {α : Type} (entry : Nat → α) (count : Nat) :
    ((List.range count).map entry).zipIdx =
      (List.range count).map fun index => (entry index, index) := by
  apply List.ext_getElem
  · simp
  · intro index _ _
    simp

theorem fixed_atom (position : Nat) (value : Bool) :
    fixed (.atom (chainName position)) value =
      (Literal.mk (chainName position) value).formula := by
  cases value <;> rfl

theorem alternatingLink_eq (position : Nat) :
    alternatingLink position (.atom (chainName position))
        (.atom (chainName (position + 1))) =
      link (· % 2 == 1) position := by
  unfold alternatingLink link
  split
  · next odd => simp [odd, Literal.formula, Literal.positive]
  · next even => simp [even, Literal.formula, Literal.positive]

theorem head?_chainAtoms (length : Nat) :
    (chainAtoms length).head? =
      if length = 0 then none else some (.atom (chainName 0)) := by
  rw [chainAtoms, Names.numbered, List.head?_map, List.head?_map,
    List.head?_range]
  split <;> rfl

theorem getLast?_chainAtoms (length : Nat) :
    (chainAtoms length).getLast? =
      if length = 0 then none else some (.atom (chainName (length - 1))) := by
  rw [chainAtoms, Names.numbered, List.getLast?_map, List.getLast?_map,
    List.getLast?_range]
  split <;> rfl

theorem chain_eq_linkedChain (length : Nat) (first : Bool) :
    chain length first =
      linkedChain (fun _ => false) length (headValue length first) := by
  unfold chain linkedChain headValue
  dsimp only
  rw [chainAtoms_zip_tail, head?_chainAtoms, List.map_map]
  congr 2
  split
  · rfl
  · simp [fixed_atom]

theorem chainWithEnds_eq_linkedChain (length : Nat) (first last : Bool) :
    chainWithEnds length first last =
      linkedChain (· % 2 == 1) length (endValues length first last) := by
  unfold chainWithEnds linkedChain endValues
  dsimp only
  rw [chainAtoms_zip_tail, head?_chainAtoms, getLast?_chainAtoms,
    zipIdx_map_range, List.map_map, List.append_assoc]
  congr 2
  · apply List.map_congr_left
    intro position _
    exact alternatingLink_eq position
  · split
    · rfl
    · simp [fixed_atom]

end Shape

section Values

variable {flips : Nat → Bool} {first : Bool} {length : Nat}
  {fixedValues : List (Nat × Bool)} {valuation : Valuation}

/-- The fixed values are those of variables of the chain, and the first one is
fixed if there is one. -/
structure FixesFirst (length : Nat) (first : Bool)
    (fixedValues : List (Nat × Bool)) : Prop where
  head : 0 < length → (0, first) ∈ fixedValues
  inside : ∀ entry ∈ fixedValues, entry.1 < length

def Follows (flips : Nat → Bool) (length : Nat) (first : Bool)
    (valuation : Valuation) : Prop :=
  ∀ position < length,
    valuation.get? (chainName position) =
      some (chainValue flips first position)

/-- The fixed values are those that the links lead to. -/
def Fits (flips : Nat → Bool) (first : Bool)
    (fixedValues : List (Nat × Bool)) : Prop :=
  ∀ entry ∈ fixedValues, entry.2 = chainValue flips first entry.1

theorem value?_mk_eq_some_true_iff {name : String} {value : Bool} :
    (Literal.mk name value).value? valuation = some true ↔
      valuation.get? name = some value := by
  rw [Literal.value?_eq_some_iff]
  simp

theorem value?_link_left_iff {position : Nat} {value : Bool} :
    (Literal.positive (chainName position)).value? valuation = some value ↔
      valuation.get? (chainName position) = some value := by
  rw [Literal.value?_eq_some_iff, Literal.positive]
  simp

/-- A link that flips the value reads its second variable negated. -/
theorem value?_link_right_iff {position : Nat} {value : Bool} :
    (Literal.mk (chainName (position + 1)) !flips position).value? valuation =
        some value ↔
      valuation.get? (chainName (position + 1)) =
        some (value ^^ flips position) := by
  rw [Literal.value?_eq_some_iff]
  cases value <;> cases flips position <;> rfl

/-- A value is passed on from each variable to the next one. -/
theorem follows_of_links (start : FixesFirst length first fixedValues)
    (links : ∀ position < length - 1,
      valuation.IsClosedFor (link flips position).clauses.clauses)
    (ends : ∀ entry ∈ fixedValues,
      valuation.get? (chainName entry.1) = some entry.2) :
    Follows flips length first valuation := by
  intro position
  induction position with
  | zero =>
      intro nonempty
      exact ends (0, first) (start.head nonempty)
  | succ position ih =>
      intro below
      have here := ih (by omega)
      have same := links position (by omega)
      rw [link, Literal.isClosedFor_iff_formula_iff,
        value?_link_left_iff.mpr here, eq_comm, value?_link_right_iff] at same
      exact same

theorem follows_of_isClosedFor (start : FixesFirst length first fixedValues)
    (closed : valuation.IsClosedFor
      (linkedChain flips length fixedValues).clauses.clauses) :
    Follows flips length first valuation ∧
      Fits flips first fixedValues := by
  rw [linkedChain, Formula.isClosedFor_conj_iff, List.forall_mem_append,
    List.forall_mem_map, List.forall_mem_map] at closed
  obtain ⟨links, ends⟩ := closed
  have fixedTrue : ∀ entry ∈ fixedValues,
      valuation.get? (chainName entry.1) = some entry.2 := by
    intro entry member
    rw [← value?_mk_eq_some_true_iff, ← Literal.isClosedFor_formula_iff]
    exact ends entry member
  have follows : Follows flips length first valuation := by
    apply follows_of_links start _ fixedTrue
    intro position below
    exact links position (List.mem_range.mpr below)
  refine ⟨follows, ?_⟩
  intro entry member
  have given := fixedTrue entry member
  rw [follows entry.1 (start.inside entry member)] at given
  exact (Option.some.inj given).symm

theorem kleene?_of_follows (start : FixesFirst length first fixedValues)
    (follows : Follows flips length first valuation)
    (fits : Fits flips first fixedValues) :
    (linkedChain flips length fixedValues).kleene? valuation = some true := by
  rw [linkedChain, Formula.kleene?_conj_eq_some_true_iff,
    List.forall_mem_append, List.forall_mem_map, List.forall_mem_map]
  constructor
  · intro position inRange
    have below := List.mem_range.mp inRange
    have here := follows position (by omega)
    have next := follows (position + 1) (by omega)
    rw [link, Formula.kleene?_iff_eq_some_true_iff]
    refine ⟨chainValue flips first position, ?_, ?_⟩
    · rw [Literal.kleene?_formula]
      exact value?_link_left_iff.mpr here
    · rw [Literal.kleene?_formula]
      exact value?_link_right_iff.mpr next
  · intro entry member
    rw [Literal.kleene?_formula, value?_mk_eq_some_true_iff,
      follows entry.1 (start.inside entry member), ← fits entry member]

/-- Being closed and being true are the same for a chain. -/
theorem isClosedFor_linkedChain_iff
    (start : FixesFirst length first fixedValues) :
    valuation.IsClosedFor
        (linkedChain flips length fixedValues).clauses.clauses ↔
      Follows flips length first valuation ∧
        Fits flips first fixedValues := by
  constructor
  · exact follows_of_isClosedFor start
  · rintro ⟨follows, fits⟩
    exact Formula.isClosedFor_of_kleene? (kleene?_of_follows start follows fits)

theorem kleene?_linkedChain_iff
    (start : FixesFirst length first fixedValues) :
    (linkedChain flips length fixedValues).kleene? valuation = some true ↔
      Follows flips length first valuation ∧
        Fits flips first fixedValues := by
  constructor
  · intro holds
    exact follows_of_isClosedFor start (Formula.isClosedFor_of_kleene? holds)
  · rintro ⟨follows, fits⟩
    exact kleene?_of_follows start follows fits

def chainValuation (flips : Nat → Bool) (length : Nat) (first : Bool) :
    Valuation :=
  .ofList ((List.range length).map fun position =>
    (chainName position, chainValue flips first position))

theorem chainName_injective : Function.Injective chainName := by
  intro position other same
  have digits : position.repr.toList = other.repr.toList := by
    have letters := congrArg String.toList same
    simpa [chainName] using letters
  exact Nat.repr_injective (String.toList_injective digits)

theorem follows_chainValuation (flips : Nat → Bool) (length : Nat)
    (first : Bool) :
    Follows flips length first (chainValuation flips length first) := by
  intro position below
  apply Valuation.get?_extend_of_agree
  · intro value member
    obtain ⟨other, _, same⟩ := List.mem_map.mp member
    obtain ⟨sameName, rfl⟩ := Prod.mk.inj same
    rw [chainName_injective sameName]
  · left
    exact List.mem_map.mpr ⟨position, List.mem_range.mpr below, rfl⟩

theorem Follows.extends_chainValuation
    (follows : Follows flips length first valuation) :
    valuation.Extends (chainValuation flips length first) := by
  apply valuation.extends_empty.extend_right
  intro name value member
  obtain ⟨position, inRange, same⟩ := List.mem_map.mp member
  obtain ⟨rfl, rfl⟩ := Prod.mk.inj same
  exact follows position (List.mem_range.mp inRange)

theorem size_chainValuation (flips : Nat → Bool) (length : Nat)
    (first : Bool) : (chainValuation flips length first).size = length := by
  have distinct : (((List.range length).map fun position =>
      (chainName position, chainValue flips first position)).map
        Prod.fst).Nodup := by
    rw [List.map_map]
    exact List.nodup_range.map chainName_injective
  have isOpen (name : String) : Valuation.empty.contains name = false := by
    rw [Valuation.contains_eq_false_iff, Valuation.get?_empty]
  rw [chainValuation, Valuation.ofList,
    Valuation.size_extend distinct fun pair _ => isOpen pair.1,
    List.length_map, List.length_range]
  exact Nat.zero_add length

theorem Follows.contains (follows : Follows flips length first valuation) :
    ∀ name ∈ Names.numbered "a" length, valuation.contains name = true := by
  intro name member
  obtain ⟨position, inRange, rfl⟩ := List.mem_map.mp member
  exact Valuation.contains_iff_exists.mpr
    ⟨_, follows position (List.mem_range.mp inRange)⟩

theorem mem_numbered_of_mem_atoms
    (start : FixesFirst length first fixedValues) {name : String}
    (occurs : name ∈ (linkedChain flips length fixedValues).atoms) :
    name ∈ Names.numbered "a" length := by
  have numbered {position : Nat} (below : position < length) :
      chainName position ∈ Names.numbered "a" length :=
    List.mem_map.mpr ⟨position, List.mem_range.mpr below, rfl⟩
  have isName {literal : Literal} (inLiteral : name ∈ literal.formula.atoms) :
      name = literal.name := by
    unfold Literal.formula at inLiteral
    split at inLiteral <;> simpa [Formula.atoms] using inLiteral
  obtain ⟨part, isPart, inPart⟩ := Formula.mem_atoms_conj_iff.mp occurs
  rcases List.mem_append.mp isPart with isLink | isEnd
  · obtain ⟨position, inRange, rfl⟩ := List.mem_map.mp isLink
    have below := List.mem_range.mp inRange
    have inSide : name ∈ (Literal.positive (chainName position)).formula.atoms ∨
        name ∈ (Literal.mk (chainName (position + 1))
          !flips position).formula.atoms := by
      simp only [link, Formula.iff, Formula.implies, Formula.atoms,
        Formula.atomsList, List.append_nil, List.mem_append] at inPart
      tauto
    rcases inSide with inLeft | inRight
    · rw [isName inLeft]
      exact numbered (by omega)
    · rw [isName inRight]
      exact numbered (by omega)
  · obtain ⟨entry, member, rfl⟩ := List.mem_map.mp isEnd
    rw [isName inPart]
    exact numbered (start.inside entry member)

theorem evaluate_linkedChain_iff
    (start : FixesFirst length first fixedValues) :
    (linkedChain flips length fixedValues).evaluate valuation = .ok true ↔
      Follows flips length first valuation ∧
        Fits flips first fixedValues := by
  rw [← kleene?_linkedChain_iff start]
  constructor
  · exact Formula.kleene?_of_evaluate _
  · intro holds
    have follows := ((kleene?_linkedChain_iff start).mp holds).1
    apply (Formula.evaluate_eq_ok_iff_of_total _).mpr holds
    rw [Valuation.isTotalOver_iff]
    intro name member
    apply follows.contains
    exact mem_numbered_of_mem_atoms start (Formula.mem_vars_iff.mp member)

end Values

section Parity

theorem chainValue_of_no_flips (first : Bool) (position : Nat) :
    chainValue (fun _ => false) first position = first := by
  induction position with
  | zero => rfl
  | succ position ih => rw [chainValue, ih, Bool.xor_false]

/-- Every second link flips the value. -/
theorem chainValue_of_alternating (first : Bool) (position : Nat) :
    chainValue (· % 2 == 1) first position =
      (first ^^ (position / 2 % 2 == 1)) := by
  induction position with
  | zero => simp [chainValue]
  | succ position ih =>
      have step : ((position + 1) / 2 % 2 == 1) =
          ((position / 2 % 2 == 1) ^^ (position % 2 == 1)) := by
        by_cases odd : position % 2 = 1
        · have next : (position + 1) / 2 = position / 2 + 1 := by omega
          rw [next, odd, Bool.eq_iff_iff]
          simp only [beq_self_eq_true, Bool.xor_true, Bool.not_eq_true',
            beq_iff_eq, beq_eq_false_iff_ne]
          omega
        · have same : (position + 1) / 2 = position / 2 := by omega
          rw [same, beq_eq_false_iff_ne.mpr odd, Bool.xor_false]
      rw [chainValue, ih, step, Bool.xor_assoc]

theorem fixesFirst_chain (length : Nat) (first : Bool) :
    FixesFirst length first (headValue length first) := by
  unfold headValue
  by_cases isEmpty : length = 0
  · rw [if_pos isEmpty]
    exact ⟨by omega, by simp⟩
  · rw [if_neg isEmpty]
    exact ⟨by simp, by simpa using Nat.pos_of_ne_zero isEmpty⟩

theorem fixesFirst_chainWithEnds (length : Nat) (first last : Bool) :
    FixesFirst length first (endValues length first last) := by
  unfold endValues
  by_cases isEmpty : length = 0
  · rw [if_pos isEmpty]
    exact ⟨by omega, by simp⟩
  · rw [if_neg isEmpty]
    refine ⟨by simp, ?_⟩
    simp only [List.forall_mem_cons, List.not_mem_nil, false_imp_iff,
      implies_true, and_true]
    omega

theorem fits_chain (length : Nat) (first : Bool) :
    Fits (fun _ => false) first (headValue length first) := by
  intro entry member
  unfold headValue at member
  split at member
  · cases member
  · rw [List.mem_singleton.mp member, chainValue]

/-- The last value fits if it differs from the first one exactly when the
number of links that flip is odd. -/
theorem fits_chainWithEnds_iff (length : Nat) (first last : Bool) :
    Fits (· % 2 == 1) first (endValues length first last) ↔
      chainWithEndsIsSat length first last = true := by
  unfold Fits endValues chainWithEndsIsSat
  by_cases isEmpty : length = 0
  · simp [isEmpty]
  · simp only [isEmpty, if_false, List.forall_mem_cons, List.not_mem_nil,
      false_imp_iff, implies_true, and_true, chainValue_of_alternating]
    generalize ((length - 1) / 2 % 2 == 1) = odd
    cases first <;> cases last <;> cases odd <;> decide

end Parity

/-- A chain with both ends fixed can be made true exactly when the parity of
its flips fits the ends.  One with the first value fixed is true exactly where
all variables have this value, on valuations that assign all atoms as on
others. -/
theorem chains_decided_by_parity (length : Nat) (first : Bool) :
    (∀ last,
      (∃ valuation : Valuation,
        (chainWithEnds length first last).evaluate valuation = .ok true) ↔
      chainWithEndsIsSat length first last = true) ∧
    ∀ valuation : Valuation,
      (chain length first).evaluate valuation = .ok true ↔
        ∀ name ∈ Names.numbered "a" length,
          valuation.get? name = some first := by
  constructor
  · intro last
    have start := fixesFirst_chainWithEnds length first last
    rw [chainWithEnds_eq_linkedChain, ← fits_chainWithEnds_iff]
    constructor
    · rintro ⟨valuation, holds⟩
      exact ((evaluate_linkedChain_iff start).mp holds).2
    · intro fits
      have follows := follows_chainValuation (· % 2 == 1) length first
      exact ⟨_, (evaluate_linkedChain_iff start).mpr ⟨follows, fits⟩⟩
  · intro valuation
    rw [chain_eq_linkedChain,
      evaluate_linkedChain_iff (fixesFirst_chain length first),
      and_iff_left (fits_chain length first)]
    unfold Follows Names.numbered
    simp only [chainValue_of_no_flips, List.forall_mem_map, List.mem_range]
    rfl

section Search

variable {flips : Nat → Bool} {first : Bool} {length : Nat}
  {fixedValues : List (Nat × Bool)} {names : List String}

/-- The closed valuations of a chain that fits are those that extend its own
one, which is therefore what propagation finds. -/
theorem dpll_linkedChain_of_fits
    (start : FixesFirst length first fixedValues)
    (fits : Fits flips first fixedValues)
    (within : ∀ name ∈ names,
      name ∈ (linkedChain flips length fixedValues).vars.toList) :
    dpll ∅ (linkedChain flips length fixedValues).clauses names =
        .satisfiable (chainValuation flips length first) ∧
      Problem.cost ⟨(linkedChain flips length fixedValues).clauses, names⟩
        ∅ = ⟨0, length, 0, 0⟩ := by
  have follows := follows_chainValuation flips length first
  have total : (chainValuation flips length first).isTotalOver names =
      true := by
    apply Valuation.isTotalOver_iff.mpr
    intro name member
    apply follows.contains
    exact mem_numbered_of_mem_atoms start
      (Formula.mem_vars_iff.mp (within name member))
  have least (other : Valuation) (closed : other.IsClosedFor
      (linkedChain flips length fixedValues).clauses.clauses) :
      other.Extends (chainValuation flips length first) :=
    ((isClosedFor_linkedChain_iff start).mp closed).1.extends_chainValuation
  obtain ⟨outcome, isCost⟩ := Problem.solved_by_least_closed
    ((isClosedFor_linkedChain_iff start).mpr ⟨follows, fits⟩) least total
  rw [size_chainValuation] at isCost
  exact ⟨outcome, isCost⟩

theorem dpll_linkedChain_of_not_fits
    (start : FixesFirst length first fixedValues)
    (misfit : ¬ Fits flips first fixedValues) (names : List String) :
    dpll ∅ (linkedChain flips length fixedValues).clauses names =
        .unsatisfiable ∧
      ∃ forced,
        Problem.cost ⟨(linkedChain flips length fixedValues).clauses, names⟩
          ∅ = ⟨0, forced, 1, 0⟩ := by
  apply Problem.refuted_without_closed
  intro other closed
  exact misfit ((isClosedFor_linkedChain_iff start).mp closed).2

end Search

/-- However the variables are listed, no chain takes a decision.  One with the
first value fixed has each variable forced once, to this value.  One with both
ends fixed has the same if the parity of its flips fits the ends, and otherwise
fails at once. -/
theorem chains_need_no_decision (length : Nat) (first : Bool) :
    (∀ names : List String,
      (∀ name ∈ names, name ∈ (chain length first).vars.toList) →
      Problem.cost ⟨(chain length first).clauses, names⟩ ∅ =
        { decisions := 0, propagations := length, conflicts := 0,
          maxDepth := 0 } ∧
      ∃ model,
        dpll ∅ (chain length first).clauses names = .satisfiable model ∧
        ∀ name ∈ Names.numbered "a" length,
          model.get? name = some first) ∧
    ∀ (last : Bool) (names : List String),
      (∀ name ∈ names,
        name ∈ (chainWithEnds length first last).vars.toList) →
      let cnf := (chainWithEnds length first last).clauses
      let cost := Problem.cost ⟨cnf, names⟩ ∅
      cost.decisions = 0 ∧
      (chainWithEndsIsSat length first last = true →
        (dpll ∅ cnf names).isSat = true ∧ cost.propagations = length ∧
          cost.conflicts = 0) ∧
      (chainWithEndsIsSat length first last = false →
        dpll ∅ cnf names = .unsatisfiable ∧ cost.conflicts = 1) := by
  constructor
  · intro names within
    have start := fixesFirst_chain length first
    rw [chain_eq_linkedChain] at within ⊢
    obtain ⟨outcome, isCost⟩ :=
      dpll_linkedChain_of_fits start (fits_chain length first) within
    refine ⟨isCost, _, outcome, ?_⟩
    intro name member
    obtain ⟨position, inRange, rfl⟩ := List.mem_map.mp member
    have value := follows_chainValuation (fun _ => false) length first
      position (List.mem_range.mp inRange)
    rw [chainValue_of_no_flips] at value
    exact value
  · intro last names within
    have start := fixesFirst_chainWithEnds length first last
    rw [chainWithEnds_eq_linkedChain] at within ⊢
    dsimp only
    rw [← fits_chainWithEnds_iff, ← Bool.not_eq_true,
      ← fits_chainWithEnds_iff]
    by_cases fits : Fits (· % 2 == 1) first (endValues length first last)
    · obtain ⟨outcome, isCost⟩ := dpll_linkedChain_of_fits start fits within
      rw [outcome, isCost]
      exact ⟨rfl, fun _ => ⟨rfl, rfl, rfl⟩, fun misfit => absurd fits misfit⟩
    · obtain ⟨outcome, forced, isCost⟩ :=
        dpll_linkedChain_of_not_fits start fits names
      rw [outcome, isCost]
      exact ⟨rfl, fun fitting => absurd fitting fits, fun _ => ⟨rfl, rfl⟩⟩

end PropSat.Families
