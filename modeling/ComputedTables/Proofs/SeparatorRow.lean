import Mathlib.Data.List.Basic
import ComputedTables.Proofs.Evaluation

/-!
# The row between header and data

A cell of rule characters is no formula and no literal (`literal?_of_rule`), so in a grid that comes
from texts such cells have no value and never get one (`RulesSilent`).  Leaving the separator row
out of a column therefore changes nothing, whichever row is taken for it (`valuesInColumn_eq`), and
neither does taking the row out of the grid: evaluating and putting a silent row behind the first
one can be done in either order (`evaluate_withRow`).
-/

namespace ComputedTables

/-! ### Cells of rule characters -/

theorem not_isDigit_of_isRule {c : Char} (h : Grid.isRule c = true) : c.isDigit = false := by
  rw [Bool.eq_false_iff]
  intro hd
  unfold Char.isDigit at hd
  simp only [ge_iff_le, Bool.and_eq_true, decide_eq_true_eq] at hd
  unfold Grid.isRule Text.isBlank at h
  simp only [Bool.or_eq_true, Bool.and_eq_true, decide_eq_true_eq, beq_iff_eq, Char.ext_iff,
    UInt32.le_iff_toNat_le, ← UInt32.toNat_inj] at h hd
  simp only [Char.reduceVal, UInt32.reduceToNat] at h hd
  omega

theorem rule_ne_point {c : Char} (h : Grid.isRule c = true) : c ≠ '.' := by
  rintro rfl
  revert h
  decide

theorem rule_ne_equals {c : Char} (h : Grid.isRule c = true) : c ≠ '=' := by
  rintro rfl
  revert h
  decide

namespace Decimal

theorem mem_takeSign {cs : List Char} {c : Char} (h : c ∈ (takeSign cs).2) : c ∈ cs := by
  unfold takeSign at h
  split at h
  · exact List.mem_cons_of_mem _ h
  · exact List.mem_cons_of_mem _ h
  · exact h

theorem takeDigits_of_none {cs : List Char} (h : ∀ c ∈ cs, c.isDigit = false) :
    takeDigits cs = ([], cs) := by
  unfold takeDigits
  rcases cs with _ | ⟨c, cs⟩
  · rfl
  · rw [List.takeWhile_cons, List.dropWhile_cons, h c List.mem_cons_self]
    rfl

theorem takeFraction_of_ne {cs : List Char} (h : ∀ c ∈ cs, c ≠ '.') :
    takeFraction cs = ([], cs) := by
  unfold takeFraction
  split
  · exact absurd rfl (h _ List.mem_cons_self)
  · rfl

theorem numericStart?_of_rule {cs : List Char} (h : ∀ c ∈ cs, Grid.isRule c = true) :
    numericStart? cs = none := by
  have hs : ∀ c ∈ (takeSign cs).2, Grid.isRule c = true := fun c hc => h c (mem_takeSign hc)
  unfold numericStart?
  simp only [takeDigits_of_none fun c hc => not_isDigit_of_isRule (hs c hc),
    takeFraction_of_ne fun c hc => rule_ne_point (hs c hc), List.isEmpty_nil, Bool.and_self,
    ↓reduceIte]

theorem literal?_of_rule {text : String} (h : text.toList.all Grid.isRule = true) :
    literal? text = none := by
  unfold literal?
  refine numericStart?_of_rule fun c hc => ?_
  exact List.all_eq_true.1 h c (List.mem_of_mem_filter (Text.mem_of_mem_trim hc))

end Decimal

def Cell.isRule (cell : Cell) : Bool :=
  cell.content.toList.all Grid.isRule

theorem Cell.isFormula_of_isRule {cell : Cell} (h : cell.isRule = true) :
    cell.isFormula = false := by
  unfold Cell.isRule at h
  unfold Cell.isFormula isFormulaText
  rcases hc : cell.content.toList with _ | ⟨c, cs⟩
  · rfl
  · rw [hc, List.all_cons, Bool.and_eq_true] at h
    have := rule_ne_equals h.1
    simp [this]

theorem Cell.value_ofText_eq_none {text : String} (h : (Cell.ofText text).isFormula = false →
      Decimal.literal? (Cell.ofText text).content = none) :
    (Cell.ofText text).value = none := by
  unfold Cell.ofText Cell.isFormula at *
  simp only [] at *
  split
  · rfl
  · exact h (Bool.eq_false_iff.2 ‹_›)

theorem Cell.value_ofText_of_isRule {text : String} (h : (Cell.ofText text).isRule = true) :
    (Cell.ofText text).value = none :=
  Cell.value_ofText_eq_none fun _ => Decimal.literal?_of_rule h

namespace Grid

/-- No cell of rule characters has a value. -/
def RulesSilent (grid : Grid) : Prop :=
  ∀ row ∈ grid, ∀ cell ∈ row, cell.isRule = true → cell.value = none

theorem rulesSilent_ofTexts (rows : List (List String)) : (ofTexts rows).RulesSilent := by
  intro row hr cell hc h
  obtain ⟨texts, -, rfl⟩ := List.mem_map.1 hr
  obtain ⟨text, -, rfl⟩ := List.mem_map.1 hc
  exact Cell.value_ofText_of_isRule h

theorem cell?_of_mem {grid : Grid} {row : List Cell} {cell : Cell} (hr : row ∈ grid)
    (hc : cell ∈ row) : ∃ p, grid.cell? p = some cell := by
  obtain ⟨r, hr⟩ := List.mem_iff_getElem?.1 hr
  obtain ⟨c, hc⟩ := List.mem_iff_getElem?.1 hc
  exact ⟨⟨r, c⟩, cell?_eq_some.2 ⟨row, hr, hc⟩⟩

/-- Evaluation gives values to formulas only, so rules stay silent. -/
theorem RulesSilent.compute {grid : Grid} (h : grid.RulesSilent) (lookup : Lookup) {p : Place}
    (hp : p ∈ grid.formulaPlaces) : (grid.compute lookup p).RulesSilent := by
  obtain ⟨formula, hf, hformula⟩ := mem_formulaPlaces.1 hp
  intro row hr cell hc hrule
  obtain ⟨q, hq⟩ := cell?_of_mem hr hc
  by_cases hpq : p = q
  · -- the cell at a formula's place is still that formula, which no rule is
    subst hpq
    exfalso
    rcases compute_eq lookup grid p with he | ⟨value, he⟩
    · rw [he, hf] at hq
      cases hq
      rw [Cell.isFormula_of_isRule hrule] at hformula
      cases hformula
    · rw [he, cell?_setValue, if_pos rfl, hf] at hq
      cases hq
      have : formula.isRule = true := hrule
      rw [Cell.isFormula_of_isRule this] at hformula
      cases hformula
  · rw [cell?_compute_of_ne lookup grid hpq] at hq
    obtain ⟨row, hr, hc⟩ := mem_of_cell? hq
    exact h row hr cell hc hrule

/-- In a grid with silent rules a column has the same values with and without the separator row. -/
theorem valuesInColumn_eq {grid : Grid} (h : grid.RulesSilent) (p : Place) (dataOnly : Bool) :
    grid.valuesInColumn p dataOnly = grid.zipIdx.filterMap fun (row, r) =>
      if r = p.row then none else row[p.column]?.bind (Cell.counted dataOnly) := by
  unfold valuesInColumn
  refine List.filterMap_congr ?_
  rintro ⟨row, r⟩ hr
  have hr : grid[r]? = some row := List.mem_zipIdx_iff_getElem?.1 hr
  by_cases hp : r = p.row
  · simp only [hp, true_or, ↓reduceIte]
  by_cases hs : r = 1 ∧ grid.hasSeparator = true
  · obtain ⟨rfl, hs⟩ := hs
    unfold hasSeparator at hs
    rw [hr] at hs
    simp only [hp, false_or, true_and, ↓reduceIte]
    rcases hc : row[p.column]? with _ | cell
    · simp
    · have hm := List.mem_of_getElem? hc
      have hv := h row (List.mem_of_getElem? hr) cell hm (List.all_eq_true.1 hs cell hm)
      simp [Cell.counted, hv]
  · simp only [hp, hs, or_self, ↓reduceIte]

end Grid

/-! ### A row behind the first one -/

def Grid.withRow (row : List Cell) : Grid → Grid
  | [] => []
  | first :: others => first :: row :: others

/-- Where a place is once a row has been put behind the first one. -/
def Place.raised (p : Place) : Place :=
  if p.row = 0 then p else ⟨p.row + 1, p.column⟩

@[simp]
theorem Place.raised_column (p : Place) : p.raised.column = p.column := by
  unfold Place.raised
  split <;> rfl

theorem Place.zero_eq_raised_row (p : Place) : 0 = p.raised.row ↔ 0 = p.row := by
  unfold Place.raised
  by_cases h : p.row = 0
  · rw [if_pos h]
  · rw [if_neg h]
    simp only []
    omega

theorem Place.succ_eq_raised_row {r : Nat} (h : 1 ≤ r) (p : Place) :
    r + 1 = p.raised.row ↔ r = p.row := by
  unfold Place.raised
  by_cases h : p.row = 0
  · rw [if_pos h]
    omega
  · rw [if_neg h]
    simp only []
    omega

namespace Grid

theorem getElem?_withRow (row : List Cell) (grid : Grid) (p : Place) :
    (grid.withRow row)[p.raised.row]? = grid[p.row]? := by
  unfold Place.raised
  rcases grid with _ | ⟨first, others⟩
  · rfl
  · rcases p with ⟨_ | r, c⟩ <;> rfl

theorem cell?_withRow (row : List Cell) (grid : Grid) (p : Place) :
    (grid.withRow row).cell? p.raised = grid.cell? p := by
  unfold cell?
  rw [getElem?_withRow, Place.raised_column]

theorem setValue_withRow (row : List Cell) (grid : Grid) (p : Place) (value : Float) :
    (grid.withRow row).setValue p.raised value = (grid.setValue p value).withRow row := by
  unfold setValue Place.raised
  rcases grid with _ | ⟨first, others⟩
  · simp only [withRow, List.modify_nil]
  · rcases p with ⟨_ | r, c⟩
    · simp only [withRow, ↓reduceIte, List.modify_zero_cons]
    · simp only [withRow, Nat.succ_ne_zero, ↓reduceIte, List.modify_succ_cons]

/-- The places of the formula cells among the cells of a row. -/
def rowPlaces (cells : List Cell) (r : Nat) : List Place :=
  cells.zipIdx.filterMap fun cell => if cell.1.isFormula then some ⟨r, cell.2⟩ else none

theorem formulaPlaces_eq_rowPlaces (grid : Grid) :
    grid.formulaPlaces = grid.zipIdx.flatMap fun row => rowPlaces row.1 row.2 :=
  rfl

theorem rowPlaces_eq_nil {cells : List Cell} (h : ∀ cell ∈ cells, cell.isFormula = false)
    (r : Nat) : rowPlaces cells r = [] := by
  unfold rowPlaces
  rw [List.filterMap_eq_nil_iff]
  rintro ⟨cell, c⟩ hc
  simp only [h cell (List.fst_mem_of_mem_zipIdx hc), Bool.false_eq_true, ↓reduceIte]

theorem map_raised_rowPlaces (cells : List Cell) {r r' : Nat}
    (hr : ∀ c, Place.raised ⟨r, c⟩ = ⟨r', c⟩) :
    (rowPlaces cells r).map Place.raised = rowPlaces cells r' := by
  unfold rowPlaces
  rw [List.map_filterMap]
  refine List.filterMap_congr fun cell _ => ?_
  by_cases hf : cell.1.isFormula = true
  · simp only [hf, ↓reduceIte, Option.map_some, hr]
  · simp only [hf, Bool.false_eq_true, ↓reduceIte, Option.map_none]

theorem formulaPlaces_withRow {row : List Cell} (h : ∀ cell ∈ row, cell.isFormula = false)
    (grid : Grid) : (grid.withRow row).formulaPlaces = grid.formulaPlaces.map Place.raised := by
  rw [formulaPlaces_eq_rowPlaces, formulaPlaces_eq_rowPlaces]
  rcases grid with _ | ⟨first, others⟩
  · rfl
  · simp only [withRow, List.zipIdx_cons, List.flatMap_cons, List.map_append, Nat.zero_add,
      rowPlaces_eq_nil h, List.nil_append, List.map_flatMap]
    rw [map_raised_rowPlaces first fun c => rfl, List.zipIdx_succ, List.flatMap_map]
    refine congrArg _ (List.flatMap_congr fun cells hr => (map_raised_rowPlaces cells.1 ?_).symm)
    have hr : 1 ≤ cells.2 := List.le_snd_of_mem_zipIdx hr
    exact fun c => if_neg (by show cells.2 ≠ 0; omega)

theorem RulesSilent.withRow {grid : Grid} (h : grid.RulesSilent) {row : List Cell}
    (hrow : ∀ cell ∈ row, cell.value = none) : (grid.withRow row).RulesSilent := by
  rcases grid with _ | ⟨first, others⟩
  · exact h
  · intro cells hr cell hc hrule
    rcases List.mem_cons.1 hr with rfl | hr
    · exact h _ List.mem_cons_self cell hc hrule
    rcases List.mem_cons.1 hr with rfl | hr
    · exact hrow cell hc
    · exact h cells (List.mem_cons_of_mem _ hr) cell hc hrule

theorem valuesInRow_withRow (row : List Cell) (grid : Grid) (p : Place) (dataOnly : Bool) :
    (grid.withRow row).valuesInRow p.raised dataOnly = grid.valuesInRow p dataOnly := by
  unfold valuesInRow
  rw [getElem?_withRow, Place.raised_column]

theorem valuesInColumn_withRow {grid : Grid} (h : grid.RulesSilent) {row : List Cell}
    (hrow : ∀ cell ∈ row, cell.value = none) (p : Place) (dataOnly : Bool) :
    (grid.withRow row).valuesInColumn p.raised dataOnly = grid.valuesInColumn p dataOnly := by
  rw [valuesInColumn_eq (h.withRow hrow), valuesInColumn_eq h, Place.raised_column]
  have hnone : row[p.column]?.bind (Cell.counted dataOnly) = none := by
    rcases hc : row[p.column]? with _ | cell
    · rfl
    · simp [Cell.counted, hrow cell (List.mem_of_getElem? hc)]
  rcases grid with _ | ⟨first, others⟩
  · rfl
  · simp only [withRow, List.zipIdx_cons, Nat.zero_add, List.filterMap_cons, hnone, ite_self,
      Place.zero_eq_raised_row]
    rw [List.zipIdx_succ, List.filterMap_map]
    have hrest : ∀ x ∈ others.zipIdx 1,
        (if x.2 + 1 = p.raised.row then none else x.1[p.column]?.bind (Cell.counted dataOnly))
          = if x.2 = p.row then none else x.1[p.column]?.bind (Cell.counted dataOnly) := by
      intro x hx
      simp only [Place.succ_eq_raised_row (List.le_snd_of_mem_zipIdx hx)]
    have := List.filterMap_congr hrest
    simp only [Function.comp_def, this]

/-- A formula depends on the grid through the values of its ranges only. -/
theorem evalFormula?_of_values (lookup : Lookup) {grid other : Grid} {p q : Place}
    (h : ∀ range dataOnly, grid.valuesIn range p dataOnly = other.valuesIn range q dataOnly)
    (formula : String) :
    evalFormula? lookup grid p formula = evalFormula? lookup other q formula := by
  have hsegment : Segment.substituted lookup grid p = Segment.substituted lookup other q := by
    funext segment
    match segment with
    | .text _ => rfl
    | .call (.note ..) => rfl
    | .call (.aggregate function range dataOnly _) =>
      simp only [Segment.substituted, Call.value, h]
  unfold evalFormula? evalFormula
  rw [hsegment]

theorem compute_withRow (lookup : Lookup) {grid : Grid} (h : grid.RulesSilent) {row : List Cell}
    (hrow : ∀ cell ∈ row, cell.value = none) (p : Place) :
    (grid.withRow row).compute lookup p.raised = (grid.compute lookup p).withRow row := by
  have hvalues : ∀ range dataOnly, (grid.withRow row).valuesIn range p.raised dataOnly
      = grid.valuesIn range p dataOnly := by
    intro range dataOnly
    match range with
    | .row => exact valuesInRow_withRow row grid p dataOnly
    | .column => exact valuesInColumn_withRow h hrow p dataOnly
  unfold compute
  rw [cell?_withRow]
  simp only [evalFormula?_of_values lookup hvalues]
  split
  · exact setValue_withRow row grid p _
  · rfl

theorem foldl_compute_withRow (lookup : Lookup) {row : List Cell}
    (hrow : ∀ cell ∈ row, cell.value = none) : ∀ (ps : List Place) {grid : Grid},
    grid.RulesSilent → (∀ p ∈ ps, p ∈ grid.formulaPlaces) →
      (ps.map Place.raised).foldl (compute lookup) (grid.withRow row)
        = (ps.foldl (compute lookup) grid).withRow row
  | [], _, _, _ => rfl
  | p :: ps, grid, h, hp => by
    rw [List.map_cons, List.foldl_cons, List.foldl_cons, compute_withRow lookup h hrow]
    refine foldl_compute_withRow lookup hrow ps (h.compute lookup (hp p List.mem_cons_self))
      fun q hq => ?_
    rw [formulaPlaces_congr (contents_compute lookup grid p)]
    exact hp q (List.mem_cons_of_mem _ hq)

/-- A row of rules behind the first row makes no difference to the other rows. -/
theorem evaluate_withRow (lookup : Lookup) {grid : Grid} (h : grid.RulesSilent) {row : List Cell}
    (hrule : ∀ cell ∈ row, cell.isRule = true) (hrow : ∀ cell ∈ row, cell.value = none) :
    (grid.withRow row).evaluate lookup = (grid.evaluate lookup).withRow row := by
  unfold evaluate
  rw [formulaPlaces_withRow fun cell hc => Cell.isFormula_of_isRule (hrule cell hc)]
  exact foldl_compute_withRow lookup hrow _ h fun _ hp => hp

end Grid

end ComputedTables
