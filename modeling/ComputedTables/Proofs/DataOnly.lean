import ComputedTables.Proofs.RowMajor

/-!
# Formulas over data only

An aggregate over data only leaves formulas out, and so it sees nothing of the results that an
evaluation writes into the grid (`valuesIn_data`).  A formula all of whose aggregates are such has
one value, before, during and after the evaluation.  So the formulas of a table that has no others
can be evaluated in any order (`evaluate_of_dataOnly`).
-/

namespace ComputedTables

/-- Whether a segment is no aggregate, or one over data only. -/
def Segment.isDataOnly : Segment → Bool
  | .call (.aggregate _ _ dataOnly _) => dataOnly
  | .call (.note ..) => true
  | .text _ => true

/-- Whether all aggregates of a formula are over data only; it may refer to other documents. -/
def readsDataOnly (formula : String) : Bool :=
  match cutFormula (Text.trim (unmarked formula)) with
  | .ok segments => segments.all Segment.isDataOnly
  | .error _ => true

namespace Grid

/-- What the cells of a grid add to an aggregate over data only. -/
def data (grid : Grid) : List (List (Option Float)) :=
  grid.map (·.map (Cell.counted true))

variable {grid other : Grid}

/-! ### What aggregates over data only see -/

theorem valuesInRow_data (h : grid.data = other.data) (p : Place) :
    grid.valuesInRow p true = other.valuesInRow p true := by
  have key : ∀ grid : Grid, grid.valuesInRow p true
      = (grid.data[p.row]?.getD []).zipIdx.filterMap
          fun (value, c) => if c = p.column then none else value := by
    intro grid
    unfold valuesInRow data
    rw [List.getElem?_map]
    rcases grid[p.row]? with _ | row
    · rfl
    · rw [Option.map_some, Option.getD_some, Option.getD_some, List.zipIdx_map,
        List.filterMap_map]
      rfl
  rw [key, key, h]

theorem valuesInColumn_data (hcontents : grid.contents = other.contents)
    (h : grid.data = other.data) (p : Place) :
    grid.valuesInColumn p true = other.valuesInColumn p true := by
  have key : ∀ grid : Grid, grid.valuesInColumn p true = grid.data.zipIdx.filterMap
      fun (row, r) => if r = p.row ∨ (r = 1 ∧ grid.hasSeparator) then none
        else row[p.column]?.join := by
    intro grid
    unfold valuesInColumn data
    rw [List.zipIdx_map, List.filterMap_map]
    refine List.filterMap_congr fun row _ => ?_
    simp only [Function.comp_apply, Prod.map, id_eq, List.getElem?_map]
    rcases row.1[p.column]? with _ | cell <;> rfl
  rw [key, key, h, hasSeparator_congr hcontents]

theorem valuesIn_data (hcontents : grid.contents = other.contents) (h : grid.data = other.data)
    (range : Range) (p : Place) : grid.valuesIn range p true = other.valuesIn range p true := by
  match range with
  | .row => exact valuesInRow_data h p
  | .column => exact valuesInColumn_data hcontents h p

variable {lookup : Lookup}

theorem mapM_substituted_data (hcontents : grid.contents = other.contents)
    (h : grid.data = other.data) (p : Place) : ∀ {segments : List Segment},
    (∀ segment ∈ segments, segment.isDataOnly = true) →
      segments.mapM (Segment.substituted lookup grid p)
        = segments.mapM (Segment.substituted lookup other p)
  | [], _ => rfl
  | segment :: segments, hdata => by
    have hfirst : segment.substituted lookup grid p = segment.substituted lookup other p := by
      match segment with
      | .text _ => rfl
      | .call (.note ..) => rfl
      | .call (.aggregate function range dataOnly currency) =>
        obtain rfl : dataOnly = true := hdata _ List.mem_cons_self
        simp only [Segment.substituted, Call.value, valuesIn_data hcontents h]
    rw [List.mapM_cons, List.mapM_cons, hfirst, mapM_substituted_data hcontents h p
      fun segment hmem => hdata segment (List.mem_cons_of_mem _ hmem)]

theorem evalFormula?_of_data {formula : String} (hformula : readsDataOnly formula = true)
    (hcontents : grid.contents = other.contents) (h : grid.data = other.data) (p : Place) :
    evalFormula? lookup grid p formula = evalFormula? lookup other p formula := by
  unfold readsDataOnly at hformula
  unfold evalFormula? evalFormula
  rcases hcut : cutFormula (Text.trim (unmarked formula)) with fault | segments
  · rfl
  · rw [hcut] at hformula
    rw [ok_bind, ok_bind, mapM_substituted_data hcontents h p (List.all_eq_true.1 hformula)]

/-! ### What an evaluation does not touch -/

theorem data_setValue {p : Place} (hp : p ∈ grid.formulaPlaces) (value : Float) :
    (grid.setValue p value).data = grid.data := by
  obtain ⟨formula, hc, hf⟩ := mem_formulaPlaces.1 hp
  obtain ⟨cells, hr, hm⟩ := cell?_eq_some.1 hc
  unfold data setValue
  refine List.ext_getElem? fun r => ?_
  rw [List.getElem?_map, List.getElem?_map]
  by_cases hrow : p.row = r
  · subst hrow
    rw [List.getElem?_modify_eq, hr]
    refine congrArg some (List.ext_getElem? fun c => ?_)
    dsimp only
    rw [List.getElem?_map, List.getElem?_map]
    by_cases hcolumn : p.column = c
    · -- a formula adds nothing, with a value or without
      subst hcolumn
      have hstored : ({ formula with value := some value } : Cell).isFormula = true := hf
      rw [List.getElem?_modify_eq, hm]
      simp [Cell.counted, hstored, hf]
    · rw [List.getElem?_modify_ne _ _ hcolumn]
  · rw [List.getElem?_modify_ne _ _ hrow]

theorem data_compute (lookup : Lookup) {p : Place} (hp : p ∈ grid.formulaPlaces) :
    (grid.compute lookup p).data = grid.data := by
  rcases compute_eq lookup grid p with h | ⟨value, h⟩ <;> rw [h]
  exact data_setValue hp value

/-- Every formula of the grid reads data only. -/
def ReadsDataOnly (grid : Grid) : Prop :=
  ∀ texts ∈ grid.contents, ∀ text ∈ texts, isFormulaText text = true → readsDataOnly text = true

instance : DecidablePred ReadsDataOnly :=
  fun grid => inferInstanceAs (Decidable (∀ texts ∈ grid.contents, _))

theorem ReadsDataOnly.formula (h : grid.ReadsDataOnly) {p : Place} {cell : Cell}
    (hc : grid.cell? p = some cell) (hf : cell.isFormula = true) :
    readsDataOnly cell.content = true := by
  obtain ⟨row, hr, hm⟩ := mem_of_cell? hc
  exact h _ (List.mem_map_of_mem hr) _ (List.mem_map_of_mem hm) hf

/-- Evaluating formulas that read data only, in whatever order, gives each of them the value that it
has in the grid to start with. -/
theorem cell?_foldl_compute_of_dataOnly (lookup : Lookup) : ∀ (ps : List Place) {grid : Grid},
    grid.ReadsDataOnly → (∀ p ∈ ps, p ∈ grid.formulaPlaces) → ∀ q,
      (ps.foldl (compute lookup) grid).cell? q = (grid.cell? q).map fun cell =>
        if q ∈ ps then
          { cell with value := (evalFormula? lookup grid q cell.content).or cell.value }
        else cell
  | [], grid, _, _, q => by simp
  | p :: ps, grid, h, hp, q => by
    have hcontents := contents_compute lookup grid p
    have hdata := data_compute lookup (hp p List.mem_cons_self)
    have hafter : (grid.compute lookup p).ReadsDataOnly := by
      unfold ReadsDataOnly
      rwa [hcontents]
    have hrest : ∀ q ∈ ps, q ∈ (grid.compute lookup p).formulaPlaces := by
      rw [formulaPlaces_congr hcontents]
      exact fun q hq => hp q (List.mem_cons_of_mem _ hq)
    rw [List.foldl_cons, cell?_foldl_compute_of_dataOnly lookup ps hafter hrest, cell?_compute]
    rcases hc : grid.cell? q with _ | cell
    · by_cases hpq : p = q
      · rw [if_pos hpq, hpq, hc]
        rfl
      · rw [if_neg hpq]
        rfl
    · -- the formula at `q` has the same value in the grid that the first one has been stored in
      have hsame : q ∈ p :: ps → evalFormula? lookup (grid.compute lookup p) q cell.content
          = evalFormula? lookup grid q cell.content := by
        intro hq
        obtain ⟨formula, hcell, hf⟩ := mem_formulaPlaces.1 (hp q hq)
        cases hc.symm.trans hcell
        exact evalFormula?_of_data (h.formula hc hf) hcontents hdata q
      by_cases hpq : p = q
      · subst hpq
        simp only [hc, hsame List.mem_cons_self, List.mem_cons_self, Option.map_some, ↓reduceIte]
        split
        · rcases evalFormula? lookup grid p cell.content with _ | value <;> rfl
        · rfl
      · rw [if_neg hpq, Option.map_some, Option.map_some]
        by_cases hq : q ∈ ps
        · simp only [hq, List.mem_cons_of_mem p hq, hsame (List.mem_cons_of_mem p hq), ↓reduceIte]
        · have hnot : q ∉ p :: ps := fun hmem => (List.mem_cons.1 hmem).elim (Ne.symm hpq) hq
          rw [if_neg hq, if_neg hnot]

/-- In a table whose formulas read data only, each formula gets the value that it has before any is
evaluated, and evaluating them one by one in any order gives the same table. -/
theorem evaluate_of_dataOnly (lookup : Lookup) {lines : List String}
    (h : (ofLines lines).ReadsDataOnly) :
    let grid := ofLines lines
    (∀ p cell, grid.cell? p = some cell → cell.isFormula = true →
      (grid.evaluate lookup).cell? p
        = some { cell with value := evalFormula? lookup grid p cell.content }) ∧
    ∀ ps : List Place, ps.Perm grid.formulaPlaces →
      ps.foldl (compute lookup) grid = grid.evaluate lookup := by
  intro grid
  have hcell := cell?_foldl_compute_of_dataOnly lookup grid.formulaPlaces h fun _ hp => hp
  refine ⟨fun p cell hc hf => ?_, fun ps hps => ?_⟩
  · have hnone : cell.value = none := unevaluated_ofTexts (lines.map lineCells) p cell hc hf
    rw [evaluate, hcell, hc, Option.map_some, if_pos (mem_formulaPlaces.2 ⟨cell, hc, hf⟩), hnone,
      Option.or_none]
  · refine ext_cell? ?_ fun q => ?_
    · rw [contents_foldl_compute, contents_evaluate]
    · rw [evaluate, hcell, cell?_foldl_compute_of_dataOnly lookup ps h fun p hp => hps.mem_iff.1 hp]
      simp only [hps.mem_iff]

theorem evaluate_of_dataOnly_backwards :
    let lookup : Lookup := fun document name =>
      if document = "Z" ∧ name = "z" then some { value := 7 } else none
    let grid := ofLines ["| 5 | =MAX(row, data) | 1 |", "|---|---|---|",
      "| =AVG(row, data, EUR) | 3 | =SUM(row,data)+NOTE(\"Z\").z |"]
    grid.ReadsDataOnly ∧ grid.cell? ⟨2, 2⟩ = some ⟨"=SUM(row,data)+NOTE(\"Z\").z", none⟩ ∧
      (grid.evaluate lookup).cell? ⟨2, 2⟩ = some ⟨"=SUM(row,data)+NOTE(\"Z\").z",
        evalFormula? lookup grid ⟨2, 2⟩ "=SUM(row,data)+NOTE(\"Z\").z"⟩ ∧
      evalFormula? lookup grid ⟨2, 2⟩ "=SUM(row,data)+NOTE(\"Z\").z" = some 10 ∧
      grid.formulaPlaces.reverse.foldl (compute lookup) grid = grid.evaluate lookup := by
  intro lookup grid
  have hdata : grid.ReadsDataOnly := by decide +kernel
  have hcell : grid.cell? ⟨2, 2⟩ = some ⟨"=SUM(row,data)+NOTE(\"Z\").z", none⟩ := by
    decide +kernel
  have heach := (evaluate_of_dataOnly lookup hdata).1 _ _ hcell (by decide)
  have horder := (evaluate_of_dataOnly lookup hdata).2 _ (List.reverse_perm _)
  exact ⟨hdata, hcell, heach, by decide +kernel, horder⟩

end Grid

end ComputedTables
