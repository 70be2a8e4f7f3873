import PropSat.Proofs.Candidates
import PropSat.Proofs.CountingClauses
import PropSat.Proofs.PolarityTranslation

/-!
# The literals of a random formula

A random formula is drawn literal after literal, row after row, and each
literal takes a number and a coin from the source, in this order.  So the
literals are numbered, and the number alone says from which state of the
source a literal comes: drawing a row is drawing its literals, and drawing the
rows is drawing all of them.

The clause form of such a formula has one clause for each row.  All of this is
so for every generator whose numbers are below their limits.
-/

namespace PropSat

namespace Generator

section Draws

variable {α β σ : Type} (draw : σ → α × σ)

/-- The source as a number of draws leave it. -/
def afterDraws (count : Nat) (source : σ) : σ :=
  (fun state => (draw state).2)^[count] source

theorem afterDraws_add (first second : Nat) (source : σ) :
    afterDraws draw (first + second) source =
      afterDraws draw second (afterDraws draw first source) := by
  rw [Nat.add_comm]
  exact Function.iterate_add_apply _ second first source

theorem drawOnto_eq (count : Nat) (drawn : List α) (source : σ) :
    drawOnto draw count drawn source =
      (((List.range count).map fun index =>
        (draw (afterDraws draw index source)).1).reverse ++ drawn,
        afterDraws draw count source) := by
  induction count generalizing drawn source with
  | zero => rfl
  | succ count induction =>
      have later (index : Nat) : afterDraws draw (index + 1) source =
          afterDraws draw index (draw source).2 :=
        Function.iterate_succ_apply _ index source
      calc drawOnto draw (count + 1) drawn source
          = drawOnto draw count ((draw source).1 :: drawn) (draw source).2 :=
            rfl
        _ = _ := by
            rw [induction, List.range_succ_eq_map]
            simp only [List.map_cons, List.map_map, Function.comp_def, later,
              List.reverse_cons, List.append_assoc]
            rfl

/-- Many draws give, in order, what each gives from where the ones before it
leave the source. -/
theorem drawMany_eq (count : Nat) (source : σ) :
    drawMany draw count source =
      ((List.range count).map fun index =>
        (draw (afterDraws draw index source)).1,
        afterDraws draw count source) := by
  simp only [drawMany, drawOnto_eq, List.append_nil, List.reverse_reverse]

/-- What is done with the results does not change how they are drawn. -/
theorem drawMany_map (spell : α → β) (count : Nat) (source : σ) :
    drawMany (fun state => (spell (draw state).1, (draw state).2)) count
        source =
      ((drawMany draw count source).1.map spell,
        (drawMany draw count source).2) := by
  simp only [drawMany_eq, List.map_map]
  rfl

theorem afterDraws_drawMany (width count : Nat) (source : σ) :
    afterDraws (drawMany draw width) count source =
      afterDraws draw (count * width) source := by
  have row : (fun state => (drawMany draw width state).2) =
      (fun state => (draw state).2)^[width] := by
    funext state
    rw [drawMany_eq]
    rfl
  rw [afterDraws, row, ← Function.iterate_mul, Nat.mul_comm]
  rfl

/-- Drawing rows is drawing all that stands in them, one row after another. -/
theorem drawMany_drawMany (width count : Nat) (source : σ) :
    drawMany (drawMany draw width) count source =
      ((List.range count).map fun row => (List.range width).map fun place =>
        (draw (afterDraws draw (row * width + place) source)).1,
        afterDraws draw (count * width) source) := by
  rw [drawMany_eq, afterDraws_drawMany]
  simp only [afterDraws_drawMany, drawMany_eq, afterDraws_add]

end Draws

end Generator

def Clause.formula (clause : Clause) : Formula :=
  .disj (clause.literals.map Literal.formula)

def Cnf.formula (cnf : Cnf) : Formula :=
  .conj (cnf.clauses.map Clause.formula)

/-- Clauses that are written out come back from the translation in order and
with all repeats. -/
theorem Cnf.clauses_formula (cnf : Cnf) : cnf.formula.clauses = cnf := by
  have one (clause : Clause) : clause.formula.clauses = ⟨[clause]⟩ :=
    Cardinality.clauses_atLeastOne clause.literals
  rw [formula, Formula.clauses_conj, List.map_map]
  simp only [Function.comp_def, one]
  rw [conjoin, List.flatMap_map, List.flatMap_singleton']

namespace Families

open Generator

section Numbered

variable {σ : Type} [Generator σ] (pool : List String)
  (filled : 0 < pool.length)

/-- A literal as it is drawn: a number picks the name, then a coin the
polarity. -/
def drawLiteral (source : σ) : Literal × σ :=
  let draw := below filled source
  let toss := coin draw.2
  (⟨pool.get draw.1, !toss.1⟩, toss.2)

/-- The literal with a number, counted over all that are drawn. -/
def literalAt (source : σ) (number : Nat) : Literal :=
  (drawLiteral pool filled
    (afterDraws (drawLiteral pool filled) number source)).1

def clauseAt (source : σ) (width row : Nat) : Clause :=
  ⟨(List.range width).map fun place =>
    literalAt pool filled source (row * width + place)⟩

def rows (source : σ) (width count : Nat) : Cnf :=
  ⟨(List.range count).map (clauseAt pool filled source width)⟩

theorem randomLiteral_eq :
    randomLiteral pool.toArray filled = fun source : σ =>
      ((drawLiteral pool filled source).1.formula,
        (drawLiteral pool filled source).2) := by
  funext source
  unfold randomLiteral drawLiteral
  cases toss : (coin (below filled source).2).1 <;>
    simp [Literal.formula, toss]

theorem randomClause_eq (width : Nat) :
    randomClause pool.toArray filled width = fun source : σ =>
      (Clause.formula ⟨(drawMany (drawLiteral pool filled) width source).1⟩,
        (drawMany (drawLiteral pool filled) width source).2) := by
  funext source
  rw [randomClause, randomLiteral_eq, drawMany_map]
  rfl

/-- The formula is the rows, and every literal in them takes one draw. -/
theorem randomClauses_eq (source : σ) (count width : Nat) :
    randomClauses source pool count width =
      .ok ((rows pool filled source width count).formula,
        afterDraws (drawLiteral pool filled) (count * width) source) := by
  have ordered : 0 < pool.toArray.size := filled
  rw [randomClauses, dif_pos ordered, randomClause_eq,
    drawMany_map _ fun literals => Clause.formula ⟨literals⟩,
    drawMany_drawMany, List.map_map, Cnf.formula, rows, List.map_map]
  rfl

/-- Rows go on from where the rows before them leave the source. -/
theorem rows_add (source : σ) (width first second : Nat) :
    rows pool filled source width (first + second) =
      rows pool filled source width first ++
        rows pool filled
          (afterDraws (drawLiteral pool filled) (first * width) source) width
          second := by
  have goesOn (row : Nat) : clauseAt pool filled source width (first + row) =
      clauseAt pool filled
        (afterDraws (drawLiteral pool filled) (first * width) source) width
        row := by
    simp only [clauseAt, literalAt, Nat.add_mul, Nat.add_assoc,
      afterDraws_add]
  simp only [rows, List.range_add, List.map_append, List.map_map,
    Function.comp_def, goesOn]
  rfl

theorem name_literalAt_mem (source : σ) (number : Nat) :
    (literalAt pool filled source number).name ∈ pool :=
  List.get_mem pool _

/-- A formula of a number of rows as it is drawn from a source. -/
structure IsDrawn (source : σ) (width count : Nat)
    (formula : Formula) : Prop where
  spelled : formula = .conj ((List.range count).map fun row =>
    .disj ((List.range width).map fun place =>
      (literalAt pool filled source (row * width + place)).formula))
  clauses : formula.clauses = rows pool filled source width count
  size : formula.clauses.size = count
  sizes : ∀ clause ∈ formula.clauses.clauses, clause.size = width
  emptyRows : width = 0 →
    formula.clauses.clauses = List.replicate count .empty
  names : ∀ clause ∈ formula.clauses.clauses,
    ∀ literal ∈ clause.literals, literal.name ∈ pool
  covered : formula.IsCoveredBy pool

theorem isDrawn_formula_rows (source : σ) (width count : Nat) :
    IsDrawn pool filled source width count
      (rows pool filled source width count).formula := by
  have clauses := Cnf.clauses_formula (rows pool filled source width count)
  refine ⟨?spelled, clauses, ?size, ?sizes, ?emptyRows, ?names, ?covered⟩
  case spelled =>
    simp only [Cnf.formula, rows, Clause.formula, clauseAt, List.map_map,
      Function.comp_def]
  case size =>
    rw [clauses]
    simp [Cnf.size, rows]
  case sizes =>
    rw [clauses]
    simp [rows, clauseAt, Clause.size]
  case emptyRows =>
    rintro rfl
    have noLiteral : clauseAt pool filled source 0 = fun _ => .empty := rfl
    rw [clauses]
    simp [rows, noLiteral]
  case names =>
    rw [clauses]
    simp only [rows, clauseAt, List.forall_mem_map]
    intro row _ place _
    exact name_literalAt_mem pool filled source _
  case covered =>
    exact Formula.isCoveredBy_pool
      (randomClauses_eq pool filled source count width)

end Numbered

/-- Over a pool with a name every generator draws a random formula for every
number of rows and every width.  It has a clause for each row and a literal
for each place, in the order in which they are drawn.  Rows that are drawn in
two parts from one source are the rows drawn at once, and leave the source the
same. -/
theorem random_clauses_draw_in_order {σ : Type} [Generator σ]
    (pool : List String) (filled : 0 < pool.length) (source : σ)
    (width : Nat) :
    (∀ count, ∃ formula later,
      randomClauses source pool count width = .ok (formula, later) ∧
        IsDrawn pool filled source width count formula) ∧
    ∀ first second, ∃ firstRows secondRows middle later,
      randomClauses source pool first width =
          .ok (.conj firstRows, middle) ∧
        randomClauses middle pool second width =
          .ok (.conj secondRows, later) ∧
        randomClauses source pool (first + second) width =
          .ok (.conj (firstRows ++ secondRows), later) ∧
        (Formula.conj (firstRows ++ secondRows)).clauses =
          (Formula.conj firstRows).clauses ++
            (Formula.conj secondRows).clauses := by
  have drawn (source : σ) := randomClauses_eq pool filled source
  constructor
  · intro count
    exact ⟨_, _, drawn source count width,
      isDrawn_formula_rows pool filled source width count⟩
  · intro first second
    have both := drawn source (first + second) width
    rw [rows_add, Nat.add_mul, afterDraws_add] at both
    refine ⟨_, _, _, _, drawn source first width, drawn _ second width,
      ?atOnce, ?clauses⟩
    case atOnce =>
      rw [both, ← List.map_append]
      rfl
    case clauses =>
      rw [Formula.clauses_conj, List.map_append, Cnf.conjoin,
        List.flatMap_append, Formula.clauses_conj, Formula.clauses_conj]
      rfl

/-- Two names, from one seed of the generator in use. -/
theorem random_clauses_over_two_names :
    0 < ["a", "b"].length ∧
      (∃ formula later,
        randomClauses (RandomSource.mk 7) ["a", "b"] 3 2 =
            .ok (formula, later) ∧
          IsDrawn ["a", "b"] (by decide) (RandomSource.mk 7) 2 3 formula) ∧
      ∃ firstRows secondRows middle later,
        randomClauses (RandomSource.mk 7) ["a", "b"] 1 2 =
            .ok (.conj firstRows, middle) ∧
          randomClauses middle ["a", "b"] 2 2 =
            .ok (.conj secondRows, later) ∧
          randomClauses (RandomSource.mk 7) ["a", "b"] 3 2 =
            .ok (.conj (firstRows ++ secondRows), later) := by
  have filled : 0 < ["a", "b"].length := by decide
  obtain ⟨draws, splits⟩ :=
    random_clauses_draw_in_order ["a", "b"] filled (RandomSource.mk 7) 2
  obtain ⟨_, _, _, _, first, second, both, _⟩ := splits 1 2
  exact ⟨filled, draws 3, _, _, _, _, first, second, both⟩

end Families

end PropSat
