import ComputedTables.Proofs.Agreement
import ComputedTables.Proofs.Evaluation
import ComputedTables.Table.Computed

/-!
# What a table reads from other documents

A formula reads the variables that its references name and nothing else of what is published.  So
two lookups that agree on the references of a table's formulas compute the same table from it
(`computeTable_congr`), and those that agree on the references of a text publish the same variables
for it (`publishedVariables_congr`).  All of these variables are finite.
-/

namespace ComputedTables

open Std (ExtTreeMap)

/-- The document and the variable that a segment refers to. -/
def Segment.reference? : Segment → Option (String × String)
  | .call (.note document name) => some (document, name)
  | _ => none

/-- The references that a formula is cut into; one that cannot be cut has none. -/
def references (formula : String) : List (String × String) :=
  match cutFormula (Text.trim (unmarked formula)) with
  | .ok segments => segments.filterMap Segment.reference?
  | .error _ => []

def Grid.references (grid : Grid) : List (String × String) :=
  (grid.flatten.filter Cell.isFormula).flatMap fun cell => ComputedTables.references cell.content

def textReferences (text : String) : List (String × String) :=
  (tables text).flatMap fun span => (Grid.ofLines span.lines).references

/-- Two lookups find the same for each of the references. -/
def Lookup.AgreeOn (refs : List (String × String)) (lookup other : Lookup) : Prop :=
  ∀ r ∈ refs, lookup r.1 r.2 = other r.1 r.2

variable {lookup other : Lookup}

theorem Lookup.AgreeOn.mono {refs subset : List (String × String)}
    (h : Lookup.AgreeOn refs lookup other) (hs : ∀ r ∈ subset, r ∈ refs) :
    Lookup.AgreeOn subset lookup other :=
  fun r hr => h r (hs r hr)

/-! ### Formulas -/

theorem substituted_congr {segments : List Segment}
    (h : Lookup.AgreeOn (segments.filterMap Segment.reference?) lookup other) (grid : Grid)
    (p : Place) {segment : Segment} (hs : segment ∈ segments) :
    segment.substituted lookup grid p = segment.substituted other grid p := by
  match segment with
  | .text _ => rfl
  | .call (.aggregate ..) => rfl
  | .call (.note document name) =>
    have := h (document, name) (List.mem_filterMap.2 ⟨_, hs, rfl⟩)
    simp only [Segment.substituted, Call.value, this]

theorem mapM_substituted_congr (grid : Grid) (p : Place) : ∀ (segments : List Segment),
    Lookup.AgreeOn (segments.filterMap Segment.reference?) lookup other →
      segments.mapM (Segment.substituted lookup grid p)
        = segments.mapM (Segment.substituted other grid p)
  | [], _ => rfl
  | segment :: segments, h => by
    have htail : Lookup.AgreeOn (segments.filterMap Segment.reference?) lookup other :=
      h.mono fun r hr => by
        obtain ⟨s, hs, hr⟩ := List.mem_filterMap.1 hr
        exact List.mem_filterMap.2 ⟨s, List.mem_cons_of_mem _ hs, hr⟩
    rw [List.mapM_cons, List.mapM_cons, substituted_congr h grid p List.mem_cons_self,
      mapM_substituted_congr grid p segments htail]

theorem evalFormula?_congr {formula : String}
    (h : Lookup.AgreeOn (references formula) lookup other) (grid : Grid) (p : Place) :
    evalFormula? lookup grid p formula = evalFormula? other grid p formula := by
  unfold evalFormula? evalFormula
  unfold references at h
  rcases hc : cutFormula (Text.trim (unmarked formula)) with fault | segments
  · rfl
  · rw [hc] at h
    simp only [bind, Except.bind, mapM_substituted_congr grid p segments h]

theorem loneNote?_mem_references {formula : String} {r : String × String}
    (h : loneNote? (unmarked formula) = some r) : r ∈ references formula := by
  unfold loneNote? at h
  unfold references
  split at h
  · rename_i document name hc
    cases h
    rw [hc]
    exact List.mem_cons_self
  · cases h

theorem resultCurrency_congr {formula : String}
    (h : Lookup.AgreeOn (references formula) lookup other) :
    resultCurrency lookup formula = resultCurrency other formula := by
  unfold resultCurrency
  rcases currencyCode? (unmarked formula) with _ | code
  · rcases hn : loneNote? (unmarked formula) with _ | r
    · rfl
    · simp only [h r (loneNote?_mem_references hn)]
  · rfl

/-! ### Grids -/

theorem Grid.references_eq_contents (grid : Grid) :
    grid.references = (grid.contents.flatten.filter isFormulaText).flatMap
      ComputedTables.references := by
  unfold Grid.references Grid.contents
  rw [← List.map_flatten, List.filter_map, List.flatMap_map]
  rfl

theorem Grid.references_congr {grid grid' : Grid} (h : grid.contents = grid'.contents) :
    grid.references = grid'.references := by
  rw [Grid.references_eq_contents, Grid.references_eq_contents, h]

theorem Grid.mem_references {grid : Grid} {row : List Cell} {cell : Cell} (hr : row ∈ grid)
    (hc : cell ∈ row) (hf : cell.isFormula = true) {r : String × String}
    (h : r ∈ ComputedTables.references cell.content) : r ∈ grid.references := by
  refine List.mem_flatMap.2 ⟨cell, List.mem_filter.2 ⟨?_, hf⟩, h⟩
  exact List.mem_flatten.2 ⟨row, hr, hc⟩

theorem Grid.compute_congr {grid : Grid} (h : Lookup.AgreeOn grid.references lookup other)
    {p : Place} (hp : p ∈ grid.formulaPlaces) :
    grid.compute lookup p = grid.compute other p := by
  obtain ⟨cell, hc, hf⟩ := Grid.mem_formulaPlaces.1 hp
  obtain ⟨row, hr, hm⟩ := Grid.mem_of_cell? hc
  have he := evalFormula?_congr (h.mono fun r => Grid.mem_references hr hm hf) grid p
  unfold Grid.compute
  rw [hc]
  simp only [Option.bind_some, he]

theorem Grid.foldl_compute_congr : ∀ (ps : List Place) {grid : Grid},
    Lookup.AgreeOn grid.references lookup other → (∀ p ∈ ps, p ∈ grid.formulaPlaces) →
      ps.foldl (Grid.compute lookup) grid = ps.foldl (Grid.compute other) grid
  | [], _, _, _ => rfl
  | p :: ps, grid, h, hp => by
    have hg := Grid.contents_compute other grid p
    rw [List.foldl_cons, List.foldl_cons, Grid.compute_congr h (hp p List.mem_cons_self)]
    refine Grid.foldl_compute_congr ps ?_ fun q hq => ?_
    · rwa [Grid.references_congr hg]
    · rw [Grid.formulaPlaces_congr hg]
      exact hp q (List.mem_cons_of_mem _ hq)

theorem Grid.evaluate_congr {grid : Grid} (h : Lookup.AgreeOn grid.references lookup other) :
    grid.evaluate lookup = grid.evaluate other :=
  Grid.foldl_compute_congr _ h fun _ hp => hp

theorem Cell.shownText_congr {cell : Cell} (formatter : Formatter)
    (h : cell.isFormula = true → Lookup.AgreeOn (references cell.content) lookup other) :
    cell.shownText lookup formatter = cell.shownText other formatter := by
  unfold Cell.shownText
  rcases hf : cell.isFormula with _ | _
  · rfl
  · rcases cell.value with _ | value
    · rfl
    · simp only [resultCurrency_congr (h hf)]

theorem rowVariable?_congr {row : List Cell} (h : ∀ cell ∈ row, cell.isFormula = true →
      Lookup.AgreeOn (references cell.content) lookup other) :
    rowVariable? lookup row = rowVariable? other row := by
  unfold rowVariable?
  split
  · rename_i first second others
    have hlast := h ((second :: others).getLast (List.cons_ne_nil _ _))
      (List.mem_cons_of_mem _ (List.getLast_mem _))
    rcases hf : ((second :: others).getLast (List.cons_ne_nil _ _)).isFormula with _ | _
    · simp only [hf, Bool.false_eq_true, ↓reduceIte]
    · simp only [hf, ↓reduceIte, resultCurrency_congr (hlast hf)]
  · rfl

/-! ### Tables and texts -/

/-- A computed table depends on no more of what is published than its formulas refer to. -/
theorem computeTable_congr (formatter : Formatter) {lines : List String}
    (h : Lookup.AgreeOn (Grid.ofLines lines).references lookup other) :
    computeTable lookup formatter lines = computeTable other formatter lines := by
  have hcell : ∀ row ∈ (Grid.ofLines lines).evaluate other, ∀ cell ∈ row,
      cell.isFormula = true → Lookup.AgreeOn (references cell.content) lookup other := by
    intro row hr cell hc hf
    refine h.mono fun r hm => ?_
    rw [← Grid.references_congr (Grid.contents_evaluate other _)]
    exact Grid.mem_references hr hc hf hm
  have htexts : ((Grid.ofLines lines).evaluate other).displayTexts lookup formatter
      = ((Grid.ofLines lines).evaluate other).displayTexts other formatter :=
    List.map_congr_left fun row hr => List.map_congr_left fun cell hc =>
      Cell.shownText_congr formatter (hcell row hr cell hc)
  have hpublished : ((Grid.ofLines lines).evaluate other).published lookup
      = ((Grid.ofLines lines).evaluate other).published other := by
    unfold Grid.published
    rw [List.filterMap_congr fun row hr => rowVariable?_congr (hcell row hr)]
  unfold computeTable
  simp only [Grid.evaluate_congr h, htexts, hpublished]

theorem mem_textReferences {text : String} {span : Span} (hs : span ∈ formulaTables text)
    {r : String × String} (hr : r ∈ (Grid.ofLines span.lines).references) :
    r ∈ textReferences text :=
  List.mem_flatMap.2 ⟨span, List.mem_of_mem_filter hs, hr⟩

theorem publishedVariables_congr (formatter : Formatter) {text : String}
    (h : Lookup.AgreeOn (textReferences text) lookup other) :
    publishedVariables lookup formatter text = publishedVariables other formatter text := by
  refine List.foldl_ext _ _ _ fun set span hs => ?_
  rw [computeTable_congr formatter (h.mono fun r => mem_textReferences hs)]

/-- How numbers are displayed makes no difference to what is published. -/
theorem publishedVariables_formatter (lookup : Lookup) (f g : Formatter) (text : String) :
    publishedVariables lookup f text = publishedVariables lookup g text :=
  rfl

theorem rowVariable?_finite {row : List Cell} {name : String} {v : Variable}
    (h : rowVariable? lookup row = some (name, v)) : v.value.isFinite = true := by
  unfold rowVariable? at h
  split at h
  · simp only [] at h
    split at h
    · cases h
    · split at h
      · cases h
      · rename_i hn
        cases h
        simp only [Bool.or_eq_true, not_or, Bool.not_eq_true', Bool.not_eq_false] at hn
        exact hn.1.2
  · cases h

theorem published_finite (lookup : Lookup) (grid : Grid) : (grid.published lookup).Finite := by
  refine List.foldlRecOn _ _ VariableSet.finite_empty fun set hs r hr => ?_
  obtain ⟨row, -, hv⟩ := List.mem_filterMap.1 hr
  exact hs.insert (rowVariable?_finite hv)

theorem publishedVariables_finite (lookup : Lookup) (formatter : Formatter) (text : String) :
    (publishedVariables lookup formatter text).Finite :=
  List.foldlRecOn _ _ VariableSet.finite_empty fun _ hs _ _ => hs.union (published_finite lookup _)

end ComputedTables
