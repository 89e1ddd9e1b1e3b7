import ComputedTables.Proofs.SeparatorRow

/-!
# Formulas see the results before them

The places of the formulas follow each other row by row (`formulaPlaces_pairwise`), so when a
formula's turn comes, exactly the formulas before it have their final values and it and those behind
it have none.  That grid can be told from the evaluated one alone (`clearedFrom`), and the value of
a formula is the one that it has there (`evaluate_row_major`).
-/

namespace ComputedTables

/-- Whether a place comes before another one, row by row. -/
def Place.Before (p q : Place) : Prop :=
  p.row < q.row ∨ p.row = q.row ∧ p.column < q.column

instance : DecidableRel Place.Before :=
  fun _ _ => inferInstanceAs (Decidable (_ ∨ _))

theorem Place.Before.asymm {p q : Place} (h : p.Before q) : ¬ q.Before p := by
  unfold Place.Before at *
  omega

theorem Place.Before.ne {p q : Place} (h : p.Before q) : p ≠ q := by
  rintro rfl
  exact h.asymm h

namespace Grid

/-! ### The order of the formulas -/

theorem pairwise_zipIdx {α : Type} (l : List α) : l.zipIdx.Pairwise fun x y => x.2 < y.2 := by
  rw [← List.pairwise_map (f := Prod.snd), List.zipIdx_map_snd]
  exact List.pairwise_lt_range'

theorem rowPlaces_pairwise (cells : List Cell) (r : Nat) :
    (rowPlaces cells r).Pairwise Place.Before := by
  unfold rowPlaces
  rw [List.pairwise_filterMap]
  refine (pairwise_zipIdx cells).imp fun {x y} hxy p hp q hq => ?_
  split at hp <;> cases hp
  split at hq <;> cases hq
  exact .inr ⟨rfl, hxy⟩

theorem row_of_mem_rowPlaces {cells : List Cell} {r : Nat} {p : Place}
    (h : p ∈ rowPlaces cells r) : p.row = r := by
  obtain ⟨cell, -, hp⟩ := List.mem_filterMap.1 h
  split at hp <;> cases hp
  rfl

theorem formulaPlaces_pairwise (grid : Grid) : grid.formulaPlaces.Pairwise Place.Before := by
  rw [formulaPlaces_eq_rowPlaces, List.pairwise_flatMap]
  refine ⟨fun row _ => rowPlaces_pairwise row.1 row.2, ?_⟩
  refine (pairwise_zipIdx grid).imp fun {x y} hxy p hp q hq => .inl ?_
  rwa [row_of_mem_rowPlaces hp, row_of_mem_rowPlaces hq]

/-- No formula stands in the row between header and data, so leaving that row out of an evaluation
leaves out no formula. -/
theorem row_ne_one_of_hasSeparator {grid : Grid} (h : grid.hasSeparator = true) {p : Place}
    (hp : p ∈ grid.formulaPlaces) : p.row ≠ 1 := by
  intro h1
  obtain ⟨cell, hc, hf⟩ := mem_formulaPlaces.1 hp
  obtain ⟨row, hr, hm⟩ := cell?_eq_some.1 hc
  unfold hasSeparator at h
  rw [← h1, hr] at h
  have hrule : cell.isRule = true := List.all_eq_true.1 h cell (List.mem_of_getElem? hm)
  rw [Cell.isFormula_of_isRule hrule] at hf
  cases hf

/-! ### Grids on the way -/

/-- The grid without the values of its formulas from a place on, row by row. -/
def clearedFrom (grid : Grid) (p : Place) : Grid :=
  grid.mapIdx fun r row => row.mapIdx fun c cell =>
    if cell.isFormula ∧ ¬ Place.Before ⟨r, c⟩ p then { cell with value := none } else cell

theorem cell?_clearedFrom (grid : Grid) (p q : Place) :
    (grid.clearedFrom p).cell? q = (grid.cell? q).map fun cell =>
      if cell.isFormula ∧ ¬ q.Before p then { cell with value := none } else cell := by
  unfold cell? clearedFrom
  rw [List.getElem?_mapIdx]
  rcases grid[q.row]? with _ | row
  · rfl
  · rw [Option.map_some, Option.bind_some, Option.bind_some, List.getElem?_mapIdx]

theorem contents_clearedFrom (grid : Grid) (p : Place) :
    (grid.clearedFrom p).contents = grid.contents := by
  unfold contents clearedFrom
  refine List.ext_getElem? fun r => ?_
  rw [List.getElem?_map, List.getElem?_map, List.getElem?_mapIdx]
  rcases grid[r]? with _ | row
  · rfl
  · refine congrArg some (List.ext_getElem? fun c => ?_)
    rw [List.getElem?_map, List.getElem?_map, List.getElem?_mapIdx]
    rcases row[c]? with _ | cell
    · rfl
    · rw [Option.map_some, Option.map_some]
      split <;> rfl

/-- No formula has a value yet. -/
def Unevaluated (grid : Grid) : Prop :=
  ∀ p cell, grid.cell? p = some cell → cell.isFormula = true → cell.value = none

theorem unevaluated_ofTexts (rows : List (List String)) : (ofTexts rows).Unevaluated := by
  intro p cell hc hf
  obtain ⟨row, hr, hm⟩ := mem_of_cell? hc
  obtain ⟨texts, -, rfl⟩ := List.mem_map.1 hr
  obtain ⟨text, -, rfl⟩ := List.mem_map.1 hm
  exact Cell.value_ofText_eq_none fun hnot => by simp [hf] at hnot

variable (lookup : Lookup)

/-- When the turn of a formula comes, the formulas before it have their final values, and it and
the formulas behind it have none. -/
theorem foldl_compute_eq_clearedFrom {grid : Grid} (h : grid.Unevaluated) {p : Place}
    {done rest : List Place} (hplaces : grid.formulaPlaces = done ++ p :: rest) :
    done.foldl (compute lookup) grid = (grid.evaluate lookup).clearedFrom p := by
  have hordered := hplaces ▸ grid.formulaPlaces_pairwise
  rw [List.pairwise_append, List.pairwise_cons] at hordered
  obtain ⟨-, ⟨hrest, -⟩, hdone⟩ := hordered
  have hfinal : grid.evaluate lookup
      = (p :: rest).foldl (compute lookup) (done.foldl (compute lookup) grid) := by
    rw [evaluate, hplaces, List.foldl_append]
  refine ext_cell? ?_ fun q => ?_
  · rw [contents_foldl_compute, contents_clearedFrom, contents_evaluate]
  · rw [cell?_clearedFrom]
    by_cases hlater : q ∈ p :: rest
    · -- its turn has not come, so its cell is the one that the grid started with
      have hnot : ¬ q.Before p := by
        rcases List.mem_cons.1 hlater with rfl | hq
        · exact fun hself => hself.ne rfl
        · exact (hrest q hq).asymm
      have hq : q ∉ done := fun hq => (hdone q hq q hlater).ne rfl
      rw [cell?_foldl_compute_of_not_mem lookup done grid hq]
      obtain ⟨cell, hc, hf⟩ := mem_formulaPlaces.1
        (hplaces ▸ List.mem_append_right done hlater : q ∈ grid.formulaPlaces)
      obtain ⟨value, hvalue⟩ := cell?_of_contents (contents_evaluate lookup grid).symm hc
      have hformula : ({ cell with value } : Cell).isFormula = true := hf
      rw [hc, hvalue, Option.map_some, if_pos ⟨hformula, hnot⟩]
      show some cell = some { cell with value := none }
      rw [← h q cell hc hf]
    · -- what comes from here on leaves the cell alone
      have hkept : (grid.evaluate lookup).cell? q = (done.foldl (compute lookup) grid).cell? q := by
        rw [hfinal, cell?_foldl_compute_of_not_mem lookup _ _ hlater]
      rw [hkept]
      rcases hc : (done.foldl (compute lookup) grid).cell? q with _ | cell
      · rfl
      · rw [Option.map_some, if_neg]
        rintro ⟨hf, hnot⟩
        have hq : q ∈ grid.formulaPlaces := by
          rw [← formulaPlaces_congr (contents_foldl_compute lookup done grid)]
          exact mem_formulaPlaces.2 ⟨cell, hc, hf⟩
        rw [hplaces, List.mem_append] at hq
        exact hnot (hdone q (hq.resolve_right hlater) p List.mem_cons_self)

theorem cell?_evaluate_of_formula {grid : Grid} (h : grid.Unevaluated) {p : Place} {cell : Cell}
    (hc : grid.cell? p = some cell) (hf : cell.isFormula = true) :
    (grid.evaluate lookup).cell? p = some { cell with
      value := evalFormula? lookup ((grid.evaluate lookup).clearedFrom p) p cell.content } := by
  obtain ⟨done, rest, hplaces⟩ := List.append_of_mem (mem_formulaPlaces.2 ⟨cell, hc, hf⟩)
  have hordered := hplaces ▸ grid.formulaPlaces_pairwise
  rw [List.pairwise_append, List.pairwise_cons] at hordered
  obtain ⟨-, ⟨hrest, -⟩, hdone⟩ := hordered
  have hnotdone : p ∉ done := fun hp => (hdone p hp p List.mem_cons_self).ne rfl
  have hnotrest : p ∉ rest := fun hp => (hrest p hp).ne rfl
  rw [← foldl_compute_eq_clearedFrom lookup h hplaces, evaluate, hplaces, List.foldl_append,
    List.foldl_cons, cell?_foldl_compute_of_not_mem lookup rest _ hnotrest, cell?_compute,
    if_pos rfl, cell?_foldl_compute_of_not_mem lookup done grid hnotdone, hc, Option.map_some,
    h p cell hc hf, Option.or_none]

theorem cell?_evaluate_of_not_formula {grid : Grid} {p : Place} {cell : Cell}
    (hc : grid.cell? p = some cell) (hf : cell.isFormula = false) :
    (grid.evaluate lookup).cell? p = some cell := by
  unfold evaluate
  rw [cell?_foldl_compute_of_not_mem lookup, hc]
  intro hp
  obtain ⟨formula, hcell, hformula⟩ := mem_formulaPlaces.1 hp
  cases hc.symm.trans hcell
  simp [hf] at hformula

/-- Evaluating a table changes nothing but the values of its formulas, and each formula gets the
value that it has in the grid where the formulas before it have theirs and the others have none. -/
theorem evaluate_row_major (lines : List String) :
    let grid := ofLines lines
    let final := grid.evaluate lookup
    final.contents = grid.contents ∧ final.formulaPlaces = grid.formulaPlaces ∧
    (∀ p cell, grid.cell? p = some cell → cell.isFormula = false →
      final.cell? p = some cell) ∧
    ∀ p cell, grid.cell? p = some cell → cell.isFormula = true →
      final.cell? p = some
        { cell with value := evalFormula? lookup (final.clearedFrom p) p cell.content } := by
  intro grid final
  have hcontents : final.contents = grid.contents := contents_evaluate lookup grid
  have hunevaluated : grid.Unevaluated := unevaluated_ofTexts (lines.map lineCells)
  exact ⟨hcontents, formulaPlaces_congr hcontents,
    fun p cell => cell?_evaluate_of_not_formula lookup,
    fun p cell => cell?_evaluate_of_formula lookup hunevaluated⟩

theorem evaluate_row_major_later_formula :
    let grid := ofLines ["| 1 | =SUM(row) | =SUM(row) |", "|---|---|---|", "| =1/0 | =SUM(col) |"]
    let final := grid.evaluate .empty
    grid.cell? ⟨0, 2⟩ = some ⟨"=SUM(row)", none⟩ ∧
      final.cell? ⟨0, 2⟩ = some
        ⟨"=SUM(row)", evalFormula? .empty (final.clearedFrom ⟨0, 2⟩) ⟨0, 2⟩ "=SUM(row)"⟩ ∧
      evalFormula? .empty (final.clearedFrom ⟨0, 2⟩) ⟨0, 2⟩ "=SUM(row)" = some 2 := by
  intro grid final
  have hcell : grid.cell? ⟨0, 2⟩ = some ⟨"=SUM(row)", none⟩ := by decide +kernel
  exact ⟨hcell, (evaluate_row_major .empty _).2.2.2 _ _ hcell (by decide), by decide +kernel⟩

end Grid

end ComputedTables
