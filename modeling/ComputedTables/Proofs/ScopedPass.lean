import ComputedTables.Proofs.Actions
import ComputedTables.Proofs.Evaluation
import ComputedTables.Proofs.IndexChanges
import ComputedTables.Proofs.Passes
import ComputedTables.Proofs.TableRuns

/-!
# Passes with the cursor in a table

A quiet pass with the cursor in a table is a part of a pass over the whole document
(`recalculate_at_cursor`).  Outside of the table everything remembered stays as it is, table by
table and cell by cell (`pass_tables_outside`, `pass_cells_outside`).  If all other tables are
current, the pass collects what a whole pass would collect (`pass_at_cursor`), so the index gets
the same entry.  If one is not, the pass is not complete: the entry loses no variable, and keeps
those that no current table publishes (`publish_incomplete`).
-/

namespace ComputedTables

open Std (ExtTreeMap)

variable {digest : Text.Digest} {lookup : Lookup} {formatter : Formatter} {scope : Option Span}

/-- The line is none of the table's. -/
def Span.Misses (span : Span) (line : Nat) : Prop :=
  line < span.start ∨ span.last < line

instance (span : Span) (line : Nat) : Decidable (span.Misses line) :=
  inferInstanceAs (Decidable (_ ∨ _))

/-! ### Cell texts -/

theorem mem_placedCells {start : Nat} {lines : List String} {cell : Place × String}
    (h : cell ∈ placedCells start lines) :
    start ≤ cell.1.row ∧ cell.1.row < start + lines.length := by
  obtain ⟨⟨line, row⟩, hline, hcell⟩ := List.mem_flatMap.1 h
  obtain ⟨⟨text, column⟩, -, rfl⟩ := List.mem_map.1 hcell
  obtain ⟨hfirst, hlast, -⟩ := List.mem_zipIdx hline
  exact ⟨hfirst, hlast⟩

theorem Span.Misses.not_mem_placedCells {span : Span} {place : Place} {lines : List String}
    (h : span.Misses place.row) (hlines : lines.length = span.lines.length) :
    ∀ cell ∈ placedCells span.start lines, cell.1 ≠ place := by
  rintro cell hcell rfl
  have := mem_placedCells hcell
  unfold Span.Misses Span.last at h
  omega

namespace DocumentMemory

/-- The formula and the displayed text of a place are the same. -/
structure SameAt (place : Place) (m m' : DocumentMemory) : Prop where
  formula : m.formulas[place]? = m'.formulas[place]?
  displayed : m.displayed[place]? = m'.displayed[place]?

variable {m m' m'' : DocumentMemory} {span : Span} {place : Place}

theorem SameAt.trans (h : SameAt place m m') (h' : SameAt place m' m'') : SameAt place m m'' :=
  ⟨h.formula.trans h'.formula, h.displayed.trans h'.displayed⟩

theorem sameAt_noteFormula (m : DocumentMemory) {other : Place} (h : other ≠ place)
    (formula : String) : SameAt place (m.noteFormula other formula) m := by
  refine ⟨ExtTreeMap.getElem?_insert.trans (if_neg ?_), rfl⟩
  rwa [Std.LawfulEqOrd.compare_eq_iff_eq]

theorem sameAt_noteDisplayed (m : DocumentMemory) {other : Place} (h : other ≠ place)
    (text : String) : SameAt place (m.noteDisplayed other text) m := by
  refine ⟨rfl, ExtTreeMap.getElem?_insert.trans (if_neg ?_)⟩
  rwa [Std.LawfulEqOrd.compare_eq_iff_eq]

theorem sameAt_noteFormulas (m : DocumentMemory) (h : span.Misses place.row) :
    SameAt place (m.noteFormulas span) m := by
  refine List.foldlRecOn (motive := fun n => SameAt place n m) _ _ ⟨rfl, rfl⟩ fun n hn cell hc => ?_
  have hne := h.not_mem_placedCells rfl cell (List.mem_of_mem_filter hc)
  exact (n.sameAt_noteFormula hne cell.2).trans hn

theorem sameAt_noteDisplayedLines (m : DocumentMemory) {lines : List String}
    (h : span.Misses place.row) (hlines : lines.length = span.lines.length) :
    SameAt place (m.noteDisplayedLines span.start lines) m := by
  refine List.foldlRecOn (motive := fun n => SameAt place n m) _ _ ⟨rfl, rfl⟩ fun n hn cell hc => ?_
  have hne := h.not_mem_placedCells hlines cell (List.mem_of_mem_filter hc)
  exact (n.sameAt_noteDisplayed hne cell.2).trans hn

theorem sameAt_compute (m : DocumentMemory) (h : span.Misses place.row) :
    SameAt place (m.compute digest lookup formatter span).2 m := by
  have hnoted := (sameAt_noteDisplayedLines (m.noteFormulas span) h
    (length_computeTable lookup formatter span.lines)).trans (sameAt_noteFormulas m h)
  unfold compute
  dsimp only
  generalize (m.noteFormulas span).noteDisplayedLines span.start _ = noted at hnoted ⊢
  exact ⟨hnoted.formula, hnoted.displayed⟩

end DocumentMemory

theorem Pass.visit_outside {span : Span} {place : Place} (pass : Pass)
    (h : inScope scope span = true → span.Misses place.row) :
    DocumentMemory.SameAt place (pass.visit digest lookup formatter scope span).memory
      pass.memory := by
  unfold Pass.visit
  rcases hin : inScope scope span with _ | _ <;>
    rcases pass.memory.current? digest span with _ | table
  · exact ⟨rfl, rfl⟩
  · exact ⟨rfl, rfl⟩
  · exact DocumentMemory.sameAt_compute pass.memory (h hin)
  · exact ⟨rfl, rfl⟩

/-- A pass leaves the texts of all cells outside of the tables in its scope. -/
theorem Pass.foldl_visit_outside (digest : Text.Digest) (lookup : Lookup) (formatter : Formatter)
    {place : Place} (spans : List Span) (pass : Pass)
    (h : ∀ span ∈ spans, inScope scope span = true → span.Misses place.row) :
    DocumentMemory.SameAt place
      (spans.foldl (Pass.visit digest lookup formatter scope) pass).memory pass.memory :=
  List.foldlRecOn
    (motive := fun (after : Pass) => DocumentMemory.SameAt place after.memory pass.memory)
    _ _ ⟨rfl, rfl⟩ fun after hafter span hs => (after.visit_outside (h span hs)).trans hafter

/-! ### The variables of a pass -/

theorem collectAll_eq_none {name : String} : ∀ (tables : List RememberedTable) {set : VariableSet},
    set[name]? = none → (∀ table ∈ tables, table.published[name]? = none) →
      (collectAll set tables)[name]? = none
  | [], _, hset, _ => hset
  | table :: tables, set, hset, h => by
    have hnext : (set ∪ table.published)[name]? = none := by
      rw [ExtTreeMap.getElem?_union, h table List.mem_cons_self, hset]
      rfl
    exact collectAll_eq_none tables hnext fun t ht => h t (List.mem_cons_of_mem _ ht)

namespace Engine

variable {engine : Engine} {document text : String} {span : Span} {line : Nat}

theorem not_misses_start (hspan : span ∈ tables text) : ¬ span.Misses span.start := by
  have := (stands_of_mem_tables hspan).two_le
  unfold Span.Misses Span.last
  omega

/-- A pass over one table leaves the tables that start outside of it. -/
theorem pass_tables_outside (engine : Engine) (document : String) (hspan : span ∈ tables text)
    {start : Nat} (h : span.Misses start) :
    (engine.pass document text (some span)).memory.tables[start]?
      = (engine.memoryOf document).tables[start]? := by
  have houtside := (engine.pass_covers document text (some span)).outside start
  rw [houtside]
  · rfl
  · rintro s hs hin rfl
    rw [(inScope_iff (List.mem_of_mem_filter hs) hspan).1 hin] at h
    exact not_misses_start hspan h

/-- A pass over one table leaves the texts of all cells outside of it. -/
theorem pass_cells_outside (engine : Engine) (document : String) (hspan : span ∈ tables text)
    {place : Place} (h : span.Misses place.row) :
    DocumentMemory.SameAt place (engine.pass document text (some span)).memory
      (engine.memoryOf document) := by
  have hscope : ∀ s ∈ formulaTables text, inScope (some span) s = true → s.Misses place.row := by
    intro s hs hin
    rwa [(inScope_iff (List.mem_of_mem_filter hs) hspan).1 hin]
  have hswept := Pass.foldl_visit_outside engine.digest engine.index.lookup engine.formatter
    (formulaTables text)
    { memory := { engine.memoryOf document with text := some (engine.digest text) } } hscope
  exact ⟨hswept.formula, hswept.displayed⟩

/-- If all other tables are current, a pass over one table takes what a whole pass takes. -/
theorem pass_at_cursor (hspan : span ∈ tables text)
    (hcurrent : ∀ s ∈ formulaTables text, s ≠ span →
      ((engine.memoryOf document).current? engine.digest s).isSome = true) :
    (engine.pass document text (some span)).collected
        = (engine.pass document text none).collected ∧
      (engine.pass document text (some span)).complete
        = (engine.pass document text none).complete := by
  have hscoped := engine.pass_covers document text (some span)
  have hwhole := engine.pass_covers document text none
  have hresult : ∀ s ∈ formulaTables text,
      (engine.memoryOf document).result? engine.digest engine.index.lookup engine.formatter
          (some span) s
        = (engine.memoryOf document).result? engine.digest engine.index.lookup engine.formatter
          none s := by
    intro s hs
    by_cases he : s = span
    · have hin := (inScope_iff (List.mem_of_mem_filter hs) hspan).2 he
      rw [DocumentMemory.result?_of_inScope hin, DocumentMemory.result?_of_inScope rfl]
    · obtain ⟨table, ht⟩ := Option.isSome_iff_exists.1 (hcurrent s hs he)
      rw [DocumentMemory.result?_of_current ht, DocumentMemory.result?_of_current ht]
  constructor
  · rw [hscoped.collected, hwhole.collected, List.filterMap_congr hresult]
  · rw [hscoped.complete, hwhole.complete, Bool.eq_iff_iff, List.all_eq_true, List.all_eq_true]
    exact forall₂_congr fun s hs => by rw [hresult s hs]

/-- If another table is not current, a pass over one table is not complete. -/
theorem pass_incomplete (hspan : span ∈ tables text) {s : Span} (hs : s ∈ formulaTables text)
    (hne : s ≠ span) (hnone : (engine.memoryOf document).current? engine.digest s = none) :
    (engine.pass document text (some span)).complete = false := by
  rw [(engine.pass_covers document text (some span)).complete, List.all_eq_false]
  refine ⟨s, hs, ?_⟩
  unfold DocumentMemory.result?
  rw [if_neg fun hin => hne ((inScope_iff (List.mem_of_mem_filter hs) hspan).1 hin), hnone]
  exact Bool.false_ne_true

/-- What a pass collects is published by tables that are current after it. -/
theorem collected_eq_none {scope : Option Span} {name : String}
    (h : ∀ s ∈ formulaTables text, ∀ table,
      (engine.pass document text scope).memory.current? engine.digest s = some table →
        table.published[name]? = none) :
    (engine.pass document text scope).collected[name]? = none := by
  have hcovers := engine.pass_covers document text scope
  rw [hcovers.collected]
  refine collectAll_eq_none _ ExtTreeMap.getElem?_empty fun table ht => ?_
  obtain ⟨s, hs, hr⟩ := List.mem_filterMap.1 ht
  exact h s hs table ((hcovers.current? hs).trans hr)

/-! ### Publishing -/

theorem publish_indexChanged (engine : Engine) (document : String) (pass : Pass) :
    (engine.publish document pass).1.indexChanged = (engine.changedBy? document pass).isSome := by
  rw [publish_eq]
  rcases engine.changedBy? document pass with _ | index <;> rfl

/-- A pass that is not complete loses no variable, and changes none that it has not collected. -/
theorem publish_incomplete {pass : Pass} (h : pass.complete = false) (engine : Engine)
    (document name : String) :
    let after := (engine.publish document pass).2
    ((engine.index.lookup document name).isSome = true →
        (after.index.lookup document name).isSome = true) ∧
      (pass.collected[name]? = none →
        after.index.lookup document name = engine.index.lookup document name) := by
  intro after
  obtain ⟨-, -, hindex, -⟩ := publish_frame engine document pass
  have hafter : after.index = (engine.index.merge? document pass.collected).getD engine.index := by
    refine Eq.trans hindex ?_
    unfold changedBy?
    rw [h]
    rfl
  rw [hafter]
  exact engine.index.merge?_keeps document pass.collected name

theorem recalculate_in_table (hspan : span ∈ tables text) (hfirst : span.start ≤ line)
    (hlast : line ≤ span.last)
    (hpass : (engine.recalculate document text (some line) true).1.unchanged = false) :
    engine.recalculate document text (some line) true
      = engine.publish document (engine.pass document text (some span)) := by
  have hskips : engine.skips document text true = false := by
    refine Bool.eq_false_iff.2 fun h => ?_
    rw [recalculate_of_skips h] at hpass
    cases hpass
  have hscope : scopeOf text (some line) true = some span := by
    unfold scopeOf
    rw [if_pos rfl, Option.bind_some, tableAt?_of_mem_tables hspan hfirst hlast]
  rw [recalculate_of_not_skips hskips, hscope]

/-- A quiet pass with the cursor in a table that is not skipped is a part of a pass over the whole
document. -/
theorem recalculate_at_cursor (engine : Engine) {document text : String} {span : Span} {line : Nat}
    (hspan : span ∈ tables text) (hfirst : span.start ≤ line) (hlast : line ≤ span.last)
    (hpass : (engine.recalculate document text (some line) true).1.unchanged = false) :
    let part := engine.recalculate document text (some line) true
    let whole := engine.recalculate document text none false
    (∀ other, other ≠ document → part.2.memoryOf other = engine.memoryOf other) ∧
    (∀ start, span.Misses start →
      (part.2.memoryOf document).tables[start]? = (engine.memoryOf document).tables[start]?) ∧
    (∀ place : Place, span.Misses place.row →
      part.2.formulaAt? document place = engine.formulaAt? document place ∧
        part.2.displayedAt? document place = engine.displayedAt? document place) ∧
    ((∀ s ∈ formulaTables text, s ≠ span →
        ((engine.memoryOf document).current? engine.digest s).isSome = true) →
      part.2.index = whole.2.index ∧ part.1.indexChanged = whole.1.indexChanged) ∧
    ((∃ s ∈ formulaTables text, s ≠ span ∧
        (engine.memoryOf document).current? engine.digest s = none) →
      ∀ name, ((engine.index.lookup document name).isSome = true →
          (part.2.index.lookup document name).isSome = true) ∧
        ((∀ s ∈ formulaTables text, ∀ table,
          (part.2.memoryOf document).current? engine.digest s = some table →
            table.published[name]? = none) →
          part.2.index.lookup document name = engine.index.lookup document name)) := by
  intro part whole
  have hpart : part = engine.publish document (engine.pass document text (some span)) :=
    recalculate_in_table hspan hfirst hlast hpass
  have hwhole : whole = engine.publish document (engine.pass document text none) :=
    recalculate_loud engine document text none
  obtain ⟨-, -, hindex, hmemory⟩ :=
    publish_frame engine document (engine.pass document text (some span))
  rw [← hpart] at hindex hmemory
  have hself : part.2.memoryOf document = (engine.pass document text (some span)).memory := by
    rw [hmemory, if_pos rfl]
  refine ⟨fun other ho => ?_, fun start hstart => ?_, fun place hplace => ?_, fun hcurrent => ?_,
    fun ⟨s, hs, hne, hnone⟩ name => ?_⟩
  · rw [hmemory, if_neg ho.symm]
  · rw [hself]
    exact pass_tables_outside engine document hspan hstart
  · have hcells := pass_cells_outside engine document hspan hplace
    unfold formulaAt? displayedAt?
    rw [hself]
    exact ⟨hcells.formula, hcells.displayed⟩
  · obtain ⟨hcollected, hcomplete⟩ := pass_at_cursor hspan hcurrent
    have hchanged : engine.changedBy? document (engine.pass document text (some span))
        = engine.changedBy? document (engine.pass document text none) := by
      unfold changedBy?
      rw [hcollected, hcomplete]
    obtain ⟨-, -, hwholeIndex, -⟩ :=
      publish_frame engine document (engine.pass document text none)
    rw [← hwhole] at hwholeIndex
    refine ⟨by rw [hindex, hwholeIndex, hchanged], ?_⟩
    rw [hpart, hwhole, publish_indexChanged, publish_indexChanged, hchanged]
  · obtain ⟨hkept, hother⟩ :=
      publish_incomplete (pass_incomplete hspan hs hne hnone) engine document name
    rw [hpart]
    refine ⟨hkept, fun h => hother (collected_eq_none fun s hs table ht => ?_)⟩
    refine h s hs table ?_
    rwa [← hpart, hself]

theorem recalculate_at_cursor_other_current :
    let before := "|a|1|\n|b|=2|\n\n|a|3|\n|b|=4|"
    let text := "|a|5|\n|c|=6|\n\n|a|3|\n|b|=4|"
    let span : Span := ⟨0, ["|a|5|", "|c|=6|"]⟩
    let start : Engine := { digest := Text.rolling }
    let engine := (start.recalculate "n" before none false).2
    let part := engine.recalculate "n" text (some 1) true
    let whole := engine.recalculate "n" text none false
    (span ∈ tables text ∧ part.1.unchanged = false ∧ ∀ s ∈ formulaTables text,
      s = span ∨ ((engine.memoryOf "n").current? engine.digest s).isSome = true) ∧
      (part.2.memoryOf "n").tables[3]? = (engine.memoryOf "n").tables[3]? ∧
      part.2.index = whole.2.index ∧ part.1.indexChanged = whole.1.indexChanged := by
  intro before text span start engine part whole
  have hinput : span ∈ tables text ∧ part.1.unchanged = false ∧ ∀ s ∈ formulaTables text,
      s = span ∨ ((engine.memoryOf "n").current? engine.digest s).isSome = true := by decide +kernel
  have hline : span.start ≤ 1 ∧ 1 ≤ span.last := by decide
  have hmisses : span.Misses 3 := by decide
  -- nothing of what follows depends on what the engine and the texts are
  clear_value engine text span
  obtain ⟨-, htables, -, hindex, -⟩ :=
    engine.recalculate_at_cursor hinput.1 hline.1 hline.2 hinput.2.1
  exact ⟨hinput, htables 3 hmisses, hindex fun s hs => (hinput.2.2 s hs).resolve_left⟩

end Engine

end ComputedTables
