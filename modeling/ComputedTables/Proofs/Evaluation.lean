import ComputedTables.Table.Computed

/-!
# What evaluation leaves alone

Evaluating a grid stores values and changes no text (`contents_evaluate`).  Which cells are
formulas, where they stand and where the separator row is depend on the texts only, so all of them
are the same before, during and after an evaluation.  A value is stored at the place of a formula,
and nowhere else (`cell?_compute_of_ne`).
-/

namespace ComputedTables

namespace Grid

/-- The texts of a grid. -/
def contents (grid : Grid) : List (List String) :=
  grid.map (·.map Cell.content)

theorem cell?_eq_some {grid : Grid} {p : Place} {cell : Cell} :
    grid.cell? p = some cell ↔ ∃ row, grid[p.row]? = some row ∧ row[p.column]? = some cell := by
  unfold cell?
  exact Option.bind_eq_some_iff

theorem mem_of_cell? {grid : Grid} {p : Place} {cell : Cell} (h : grid.cell? p = some cell) :
    ∃ row ∈ grid, cell ∈ row := by
  obtain ⟨row, hr, hc⟩ := cell?_eq_some.1 h
  exact ⟨row, List.mem_of_getElem? hr, List.mem_of_getElem? hc⟩

theorem mem_formulaPlaces {grid : Grid} {p : Place} :
    p ∈ grid.formulaPlaces ↔ ∃ cell, grid.cell? p = some cell ∧ cell.isFormula = true := by
  unfold formulaPlaces
  simp only [List.mem_flatMap, List.mem_filterMap, Prod.exists, List.mem_zipIdx_iff_getElem?,
    cell?_eq_some]
  constructor
  · rintro ⟨row, r, hr, cell, c, hc, h⟩
    split at h
    · cases h
      exact ⟨cell, ⟨row, hr, hc⟩, ‹_›⟩
    · cases h
  · rintro ⟨cell, ⟨row, hr, hc⟩, hf⟩
    exact ⟨row, p.row, hr, cell, p.column, hc, if_pos hf⟩

theorem cell?_setValue (grid : Grid) (p q : Place) (value : Float) :
    (grid.setValue p value).cell? q =
      if p = q then (grid.cell? p).map fun cell => { cell with value := some value }
      else grid.cell? q := by
  unfold cell? setValue
  rw [List.getElem?_modify]
  by_cases hr : p.row = q.row
  · simp only [hr, ↓reduceIte, Option.map_eq_map]
    rcases grid[q.row]? with _ | row
    · simp
    · simp only [Option.map_some, Option.bind_some, List.getElem?_modify, Option.map_eq_map]
      by_cases hc : p.column = q.column
      · have : p = q := by cases p; cases q; simp_all
        simp [this]
      · have : p ≠ q := fun h => hc (h ▸ rfl)
        simp [hc, this]
  · have : p ≠ q := fun h => hr (h ▸ rfl)
    simp [hr, this]

theorem contents_setValue (grid : Grid) (p : Place) (value : Float) :
    (grid.setValue p value).contents = grid.contents := by
  unfold contents setValue
  refine List.ext_getElem? fun r => ?_
  rw [List.getElem?_map, List.getElem?_map, List.getElem?_modify]
  split
  · rcases grid[r]? with _ | row
    · rfl
    · simp only [Option.map_eq_map, Option.map_some, Option.some.injEq]
      refine List.ext_getElem? fun c => ?_
      rw [List.getElem?_map, List.getElem?_map, List.getElem?_modify]
      split <;> rcases row[c]? with _ | cell <;> rfl
  · rcases grid[r]? with _ | row <;> rfl

theorem compute_eq (lookup : Lookup) (grid : Grid) (p : Place) :
    grid.compute lookup p = grid ∨ ∃ value, grid.compute lookup p = grid.setValue p value := by
  unfold compute
  split
  · exact .inr ⟨_, rfl⟩
  · exact .inl rfl

theorem contents_compute (lookup : Lookup) (grid : Grid) (p : Place) :
    (grid.compute lookup p).contents = grid.contents := by
  rcases compute_eq lookup grid p with h | ⟨value, h⟩ <;> rw [h]
  exact contents_setValue grid p value

theorem contents_foldl_compute (lookup : Lookup) : ∀ (ps : List Place) (grid : Grid),
    (ps.foldl (compute lookup) grid).contents = grid.contents
  | [], _ => rfl
  | p :: ps, grid => by
    rw [List.foldl_cons, contents_foldl_compute lookup ps, contents_compute]

theorem contents_evaluate (lookup : Lookup) (grid : Grid) :
    (grid.evaluate lookup).contents = grid.contents :=
  contents_foldl_compute lookup _ grid

theorem length_evaluate (lookup : Lookup) (grid : Grid) :
    (grid.evaluate lookup).length = grid.length := by
  have := congrArg List.length (contents_evaluate lookup grid)
  unfold contents at this
  rwa [List.length_map, List.length_map] at this

theorem cell?_compute_of_ne (lookup : Lookup) (grid : Grid) {p q : Place} (h : p ≠ q) :
    (grid.compute lookup p).cell? q = grid.cell? q := by
  rcases compute_eq lookup grid p with hc | ⟨value, hc⟩ <;> rw [hc]
  rw [cell?_setValue, if_neg h]

/-- Evaluating one formula stores its value, if it has one. -/
theorem cell?_compute (lookup : Lookup) (grid : Grid) (p q : Place) :
    (grid.compute lookup p).cell? q =
      if p = q then (grid.cell? p).map fun cell =>
        { cell with value := (evalFormula? lookup grid p cell.content).or cell.value }
      else grid.cell? q := by
  by_cases hpq : p = q
  · subst hpq
    rw [if_pos rfl]
    unfold compute
    rcases hc : grid.cell? p with _ | cell
    · exact hc
    · rw [Option.bind_some, Option.map_some]
      rcases evalFormula? lookup grid p cell.content with _ | value
      · exact hc
      · show (grid.setValue p value).cell? p = _
        rw [cell?_setValue, if_pos rfl, hc]
        rfl
  · rw [if_neg hpq, cell?_compute_of_ne lookup grid hpq]

theorem cell?_foldl_compute_of_not_mem (lookup : Lookup) {q : Place} : ∀ (ps : List Place)
    (grid : Grid), q ∉ ps → (ps.foldl (compute lookup) grid).cell? q = grid.cell? q
  | [], _, _ => rfl
  | p :: ps, grid, h => by
    rw [List.mem_cons, not_or] at h
    rw [List.foldl_cons, cell?_foldl_compute_of_not_mem lookup ps _ h.2,
      cell?_compute_of_ne lookup grid (Ne.symm h.1)]

/-! ### What depends on the texts only -/

theorem content_cell? (grid : Grid) (p : Place) :
    (grid.cell? p).map Cell.content = grid.contents[p.row]?.bind (·[p.column]?) := by
  unfold cell? contents
  rw [List.getElem?_map]
  rcases grid[p.row]? with _ | row
  · rfl
  · rw [Option.map_some, Option.bind_some, Option.bind_some, List.getElem?_map]

/-- The texts of two cells at one place are the same in grids with the same texts. -/
theorem cell?_of_contents {grid other : Grid} (h : grid.contents = other.contents) {p : Place}
    {cell : Cell} (hc : grid.cell? p = some cell) :
    ∃ value, other.cell? p = some { cell with value } := by
  have hcontent := content_cell? other p
  rw [← h, ← content_cell? grid p, hc] at hcontent
  obtain ⟨⟨content, value⟩, hother, rfl⟩ := Option.map_eq_some_iff.1 hcontent
  exact ⟨value, hother⟩

/-- A grid is known by its texts and the cells at its places. -/
theorem ext_cell? {grid other : Grid} (hcontents : grid.contents = other.contents)
    (h : ∀ p, grid.cell? p = other.cell? p) : grid = other := by
  refine List.ext_getElem? fun r => ?_
  have hrow : grid[r]?.map (·.map Cell.content) = other[r]?.map (·.map Cell.content) := by
    simpa only [contents, List.getElem?_map] using congrArg (·[r]?) hcontents
  rcases hg : grid[r]? with _ | row <;> rcases ho : other[r]? with _ | row' <;>
    rw [hg, ho] at hrow
  · cases hrow
  · cases hrow
  · refine congrArg some (List.ext_getElem? fun c => ?_)
    have hcell := h ⟨r, c⟩
    unfold cell? at hcell
    simpa only [hg, ho, Option.bind_some] using hcell

theorem formulaPlaces_eq_contents (grid : Grid) :
    grid.formulaPlaces = grid.contents.zipIdx.flatMap fun (row, r) =>
      row.zipIdx.filterMap fun (text, c) => if isFormulaText text then some ⟨r, c⟩ else none := by
  unfold formulaPlaces contents
  rw [List.zipIdx_map, List.flatMap_map]
  congr 1
  funext ⟨row, r⟩
  simp only [Prod.map, id_eq, List.zipIdx_map, List.filterMap_map]
  rfl

theorem hasSeparator_eq_contents (grid : Grid) : grid.hasSeparator
    = (grid.contents[1]?.map (·.all (·.toList.all isRule))).getD false := by
  unfold hasSeparator contents
  rw [List.getElem?_map]
  rcases grid[1]? with _ | row
  · rfl
  · rw [Option.map_some, Option.map_some, Option.getD_some, List.all_map]
    rfl

theorem hasSeparator_congr {grid other : Grid} (h : grid.contents = other.contents) :
    grid.hasSeparator = other.hasSeparator := by
  rw [hasSeparator_eq_contents, hasSeparator_eq_contents, h]

theorem formulaPlaces_congr {grid other : Grid} (h : grid.contents = other.contents) :
    grid.formulaPlaces = other.formulaPlaces := by
  rw [formulaPlaces_eq_contents, formulaPlaces_eq_contents, h]

end Grid

theorem length_computeTable (lookup : Lookup) (formatter : Formatter) (lines : List String) :
    (computeTable lookup formatter lines).lines.length = lines.length := by
  show ((((Grid.ofLines lines).evaluate lookup).displayTexts lookup formatter).map
    rowLine).length = _
  unfold Grid.displayTexts
  rw [List.length_map, List.length_map, Grid.length_evaluate]
  unfold Grid.ofLines Grid.ofTexts
  rw [List.length_map, List.length_map]

end ComputedTables
