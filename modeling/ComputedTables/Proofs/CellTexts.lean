import ComputedTables.Proofs.ScopedPass
import ComputedTables.Proofs.WrittenBack

/-!
# The remembered texts of cells

Computing a table notes the text of each formula cell at its place in the document, and next to it
the text that the cell is displayed with, which is read off the computed lines (`compute_notes`).
The tables of a text have no line in common, so what is noted for one of them is not touched by
computing another (`Notes.of_sameAt`), whatever had been noted before: after a recalculation the
texts of all tables that it has processed are those of their cells (`recalculate_notes_cells`).
-/

namespace ComputedTables

open Std (ExtTreeMap)

/-- The text of a cell of table lines. -/
def cellText? (lines : List String) (p : Place) : Option String :=
  lines[p.row]?.bind fun line => (lineCells line)[p.column]?

/-- Where a cell of a table stands in the document. -/
def Span.placeOf (span : Span) (p : Place) : Place :=
  ⟨span.start + p.row, p.column⟩

theorem content_cell?_ofLines (lines : List String) (p : Place) :
    ((Grid.ofLines lines).cell? p).map Cell.content = cellText? lines p := by
  rw [Grid.content_cell?, contents_ofLines, List.getElem?_map, cellText?]
  rcases lines[p.row]? with _ | line <;> rfl

theorem Span.StandsIn.cellText?_placeOf {span : Span} {lines : List String}
    (h : span.StandsIn lines) {p : Place} {text : String}
    (ht : cellText? span.lines p = some text) :
    cellText? lines (span.placeOf p) = some text := by
  obtain ⟨line, hline, hcell⟩ := Option.bind_eq_some_iff.1 ht
  have hstands := h.line p.row (List.getElem?_eq_some_iff.1 hline).1
  refine Option.bind_eq_some_iff.2 ⟨line, ?_, hcell⟩
  show lines[span.start + p.row]? = some line
  rw [hstands, hline]

theorem mem_placedCells_iff {span : Span} {lines : List String} {p : Place} {text : String} :
    (span.placeOf p, text) ∈ placedCells span.start lines ↔ cellText? lines p = some text := by
  unfold placedCells cellText? Span.placeOf
  rw [List.mem_flatMap, Option.bind_eq_some_iff]
  constructor
  · rintro ⟨⟨line, row⟩, hline, hcell⟩
    obtain ⟨⟨text', column⟩, htext, heq⟩ := List.mem_map.1 hcell
    cases heq
    obtain ⟨-, hline⟩ := List.mk_mem_zipIdx_iff_le_and_getElem?_sub.1 hline
    rw [Nat.add_sub_cancel_left] at hline
    exact ⟨line, hline, List.mem_zipIdx_iff_getElem?.1 htext⟩
  · rintro ⟨line, hline, htext⟩
    refine ⟨(line, span.start + p.row), ?_, List.mem_map.2 ⟨(text, p.column), ?_, rfl⟩⟩
    · rw [List.mk_mem_zipIdx_iff_le_and_getElem?_sub, Nat.add_sub_cancel_left]
      exact ⟨Nat.le_add_right _ _, hline⟩
    · exact List.mem_zipIdx_iff_getElem?.2 htext

/-! ### Noting texts -/

/-- The map with texts noted at their places. -/
def noteAll (cells : List (Place × String)) (map : ExtTreeMap Place String) :
    ExtTreeMap Place String :=
  cells.foldl (fun map cell => map.insert cell.1 cell.2) map

theorem getElem?_noteAll {cells : List (Place × String)} {place : Place} {text : String}
    (hmem : (place, text) ∈ cells) (hsame : ∀ other, (place, other) ∈ cells → other = text)
    (map : ExtTreeMap Place String) : (noteAll cells map)[place]? = some text := by
  obtain ⟨before, after, rfl⟩ := List.append_of_mem hmem
  unfold noteAll
  rw [List.foldl_append, List.foldl_cons]
  refine List.foldlRecOn (motive := fun (m : ExtTreeMap Place String) => m[place]? = some text)
    after _ ExtTreeMap.getElem?_insert_self fun m hm cell hc => ?_
  rw [ExtTreeMap.getElem?_insert]
  split
  · next heq =>
    obtain rfl := Std.LawfulEqOrd.eq_of_compare heq
    exact congrArg some (hsame cell.2 (List.mem_append_right _ (List.mem_cons_of_mem _ hc)))
  · exact hm

namespace DocumentMemory

variable {span : Span} {p : Place} {text : String}

theorem formulas_noteFormulas (m : DocumentMemory) (span : Span) :
    (m.noteFormulas span).formulas
      = noteAll ((placedCells span.start span.lines).filter fun cell => isFormulaText cell.2)
        m.formulas :=
  (List.foldl_hom DocumentMemory.formulas fun _ _ => rfl).symm

theorem displayed_noteDisplayedLines (m : DocumentMemory) (start : Nat) (lines : List String) :
    (m.noteDisplayedLines start lines).displayed
      = noteAll ((placedCells start lines).filter fun cell => m.formulas.contains cell.1)
        m.displayed :=
  (List.foldl_hom DocumentMemory.displayed fun _ _ => rfl).symm

theorem formulas_noteDisplayedLines (m : DocumentMemory) (start : Nat) (lines : List String) :
    (m.noteDisplayedLines start lines).formulas = m.formulas :=
  List.foldlRecOn (motive := fun (n : DocumentMemory) => n.formulas = m.formulas) _ _ rfl
    fun _ h _ _ => h

theorem formula_noteFormulas (m : DocumentMemory) (ht : cellText? span.lines p = some text)
    (hf : isFormulaText text = true) :
    (m.noteFormulas span).formulas[span.placeOf p]? = some text := by
  rw [formulas_noteFormulas]
  refine getElem?_noteAll (List.mem_filter.2 ⟨mem_placedCells_iff.2 ht, hf⟩) (fun other ho => ?_) _
  have hother := mem_placedCells_iff.1 (List.mem_of_mem_filter ho)
  exact Option.some.inj (hother.symm.trans ht)

theorem displayedText_noteDisplayedLines (m : DocumentMemory) {lines : List String}
    (ht : cellText? lines p = some text) (hknown : m.formulas[span.placeOf p]?.isSome = true) :
    (m.noteDisplayedLines span.start lines).displayed[span.placeOf p]? = some text := by
  rw [displayed_noteDisplayedLines]
  have hcontains : m.formulas.contains (span.placeOf p) = true := by
    rwa [ExtTreeMap.contains_eq_isSome_getElem?]
  refine getElem?_noteAll (List.mem_filter.2 ⟨mem_placedCells_iff.2 ht, hcontains⟩)
    (fun other ho => ?_) _
  have hother := mem_placedCells_iff.1 (List.mem_of_mem_filter ho)
  exact Option.some.inj (hother.symm.trans ht)

/-- For every formula cell of a table its text and the text that it is displayed with are noted. -/
def Notes (m : DocumentMemory) (lookup : Lookup) (formatter : Formatter) (span : Span) : Prop :=
  ∀ p formula, cellText? span.lines p = some formula → isFormulaText formula = true →
    m.formulas[span.placeOf p]? = some formula ∧
      ∃ cell, (computeTable lookup formatter span.lines).grid.cell? p = some cell ∧
        cell.content = formula ∧
        m.displayed[span.placeOf p]? = some (cell.shownText lookup formatter)

theorem cells_compute (m : DocumentMemory) (digest : Text.Digest) (lookup : Lookup)
    (formatter : Formatter) (span : Span) :
    (m.compute digest lookup formatter span).2.formulas = (m.noteFormulas span).formulas ∧
      (m.compute digest lookup formatter span).2.displayed
        = ((m.noteFormulas span).noteDisplayedLines span.start
          (computeTable lookup formatter span.lines).lines).displayed := by
  have hformulas := (m.noteFormulas span).formulas_noteDisplayedLines span.start
    (computeTable lookup formatter span.lines).lines
  unfold compute
  dsimp only
  generalize (m.noteFormulas span).noteDisplayedLines span.start _ = noted at hformulas ⊢
  exact ⟨hformulas, rfl⟩

/-- Computing a table notes the texts of its cells. -/
theorem compute_notes {lookup : Lookup} (h : lookup.CodesCurrencies) (settings : Settings)
    (digest : Text.Digest) (m : DocumentMemory) (span : Span) :
    (m.compute digest lookup settings.formatter span).2.Notes lookup settings.formatter span := by
  intro p formula ht hf
  obtain ⟨hformulas, hdisplayed⟩ := m.cells_compute digest lookup settings.formatter span
  have hformula : (m.noteFormulas span).formulas[span.placeOf p]? = some formula :=
    m.formula_noteFormulas ht hf
  obtain ⟨cell, hcell, hcontent⟩ :
      ∃ cell, (computeTable lookup settings.formatter span.lines).grid.cell? p = some cell ∧
        cell.content = formula := by
    refine Option.map_eq_some_iff.1 ?_
    rw [Grid.content_cell?, contents_computeTable, List.getElem?_map, ← ht, cellText?]
    rcases span.lines[p.row]? with _ | line <;> rfl
  have hshown : cellText? (computeTable lookup settings.formatter span.lines).lines p
      = some (cell.shownText lookup settings.formatter) := by
    rw [← content_cell?_ofLines]
    exact shownText_cell?_computeTable h settings span.lines hcell
  have hknown : (m.noteFormulas span).formulas[span.placeOf p]?.isSome = true := by
    rw [hformula]
    rfl
  rw [hformulas, hdisplayed]
  exact ⟨hformula, cell, hcell, hcontent, displayedText_noteDisplayedLines _ hshown hknown⟩

theorem Notes.of_sameAt {m m' : DocumentMemory} {lookup : Lookup} {formatter : Formatter}
    (h : m.Notes lookup formatter span)
    (hsame : ∀ p, p.row < span.lines.length → SameAt (span.placeOf p) m' m) :
    m'.Notes lookup formatter span := by
  intro p formula ht hf
  obtain ⟨line, hline, -⟩ := Option.bind_eq_some_iff.1 ht
  have hp := hsame p (List.getElem?_eq_some_iff.1 hline).1
  rw [hp.formula, hp.displayed]
  exact h p formula ht hf

end DocumentMemory

/-! ### Passes -/

section Visits

variable {digest : Text.Digest} {lookup : Lookup} {formatter : Formatter} {scope : Option Span}

/-- Whether a pass computes a table: it is in the scope and not current. -/
def DocumentMemory.computes (m : DocumentMemory) (digest : Text.Digest) (scope : Option Span)
    (span : Span) : Bool :=
  inScope scope span && (m.current? digest span).isNone

theorem DocumentMemory.computes_congr {m m' : DocumentMemory} {span : Span}
    (h : m.tables[span.start]? = m'.tables[span.start]?) :
    m.computes digest scope span = m'.computes digest scope span := by
  unfold computes
  rw [current?_congr h]

theorem Pass.visit_of_computes {pass : Pass} {span : Span}
    (h : pass.memory.computes digest scope span = true) :
    (pass.visit digest lookup formatter scope span).memory
      = (pass.memory.compute digest lookup formatter span).2 := by
  obtain ⟨hin, hnone⟩ := Bool.and_eq_true_iff.1 h
  rw [Pass.visit, hin, Option.isNone_iff_eq_none.1 hnone]

theorem Pass.visit_processed (pass : Pass) (span : Span) :
    (pass.visit digest lookup formatter scope span).processed
      = pass.processed + if pass.memory.computes digest scope span then 1 else 0 := by
  unfold Pass.visit DocumentMemory.computes
  rcases inScope scope span with _ | _ <;>
    rcases pass.memory.current? digest span with _ | table <;> rfl

/-- Visiting a table does not decide whether one that starts elsewhere is computed. -/
theorem Pass.computes_visit {span s : Span} (hne : s.start ≠ span.start) (pass : Pass) :
    (pass.visit digest lookup formatter scope span).memory.computes digest scope s
      = pass.memory.computes digest scope s := by
  obtain ⟨-, -, -, htables⟩ := pass.visit_result digest lookup formatter scope span
  refine DocumentMemory.computes_congr ?_
  rw [htables, if_neg fun h => hne h.2]

/-- The tables that a pass computes are told by the memory that it starts with. -/
theorem Pass.foldl_visit_processed : ∀ (spans : List Span) (pass : Pass),
    (spans.map Span.start).Nodup →
      (spans.foldl (Pass.visit digest lookup formatter scope) pass).processed
        = pass.processed + spans.countP (pass.memory.computes digest scope)
  | [], _, _ => rfl
  | span :: spans, pass, hd => by
    rw [List.map_cons, List.nodup_cons] at hd
    have hrest : ∀ s ∈ spans,
        (pass.visit digest lookup formatter scope span).memory.computes digest scope s
          = pass.memory.computes digest scope s := fun s hs =>
      pass.computes_visit fun he => hd.1 (he ▸ List.mem_map_of_mem hs)
    rw [List.foldl_cons, Pass.foldl_visit_processed spans _ hd.2, pass.visit_processed,
      List.countP_congr fun s hs => by rw [hrest s hs], List.countP_cons]
    omega

/-- After a pass over tables without a common line the texts of those that it has computed are
noted. -/
theorem Pass.foldl_visit_notes {lookup : Lookup} (h : lookup.CodesCurrencies) (settings : Settings)
    {spans : List Span} (hapart : spans.Pairwise fun a b => a.start + a.lines.length < b.start)
    {span : Span} (hspan : span ∈ spans) {pass : Pass}
    (hcomputes : pass.memory.computes digest scope span = true) :
    (spans.foldl (Pass.visit digest lookup settings.formatter scope) pass).memory.Notes lookup
      settings.formatter span := by
  obtain ⟨before, after, rfl⟩ := List.append_of_mem hspan
  obtain ⟨-, hrest, hacross⟩ := List.pairwise_append.1 hapart
  rw [List.foldl_append, List.foldl_cons]
  -- the tables before it leave it to be computed
  have hbefore : (before.foldl (Pass.visit digest lookup settings.formatter scope)
      pass).memory.computes digest scope span = true := by
    refine List.foldlRecOn (motive := fun (p : Pass) => p.memory.computes digest scope span = true)
      before _ hcomputes fun p hp s hs => ?_
    have hlt := hacross s hs span List.mem_cons_self
    rw [p.computes_visit (by omega), hp]
  -- and those after it leave the places of its cells alone
  have hnotes := (before.foldl (Pass.visit digest lookup settings.formatter scope)
    pass).memory.compute_notes h settings digest span
  rw [← Pass.visit_of_computes hbefore] at hnotes
  refine hnotes.of_sameAt fun p hp =>
    Pass.foldl_visit_outside digest lookup settings.formatter after _ fun s hs _ => .inl ?_
  have hlt := (List.pairwise_cons.1 hrest).1 s hs
  show span.start + p.row < s.start
  omega

end Visits

namespace Engine

/-- Whether a recalculation processes a table, which is not so if the pass is skipped. -/
def processes (engine : Engine) (document text : String) (cursor : Option Nat) (quiet : Bool)
    (span : Span) : Bool :=
  !engine.skips document text quiet &&
    (engine.memoryOf document).computes engine.digest (scopeOf text cursor quiet) span

variable {engine : Engine} {document text : String} {scope : Option Span}

theorem pass_notes (h : engine.index.lookup.CodesCurrencies) {span : Span}
    (hspan : span ∈ formulaTables text)
    (hcomputes : (engine.memoryOf document).computes engine.digest scope span = true) :
    (engine.pass document text scope).memory.Notes engine.index.lookup engine.formatter span := by
  let start : Pass :=
    { memory := { engine.memoryOf document with text := some (engine.digest text) } }
  have hcomputes : start.memory.computes engine.digest scope span = true := hcomputes
  have hnotes := Pass.foldl_visit_notes h engine.settings (formulaTables_pairwise text) hspan
    hcomputes
  refine hnotes.of_sameAt fun p _ => ?_
  unfold pass
  dsimp only
  split <;> exact ⟨rfl, rfl⟩

theorem pass_processed (engine : Engine) (document text : String) (scope : Option Span) :
    (engine.pass document text scope).processed
      = (formulaTables text).countP ((engine.memoryOf document).computes engine.digest scope) := by
  let start : Pass :=
    { memory := { engine.memoryOf document with text := some (engine.digest text) } }
  have hcount : ((formulaTables text).foldl
      (Pass.visit engine.digest engine.index.lookup engine.formatter scope) start).processed
        = 0 + (formulaTables text).countP
          ((engine.memoryOf document).computes engine.digest scope) :=
    Pass.foldl_visit_processed _ start (formulaTables_starts_nodup text)
  rw [Nat.zero_add] at hcount
  unfold pass
  dsimp only
  split <;> exact hcount

theorem recalculate_processed (engine : Engine) (document text : String) (cursor : Option Nat)
    (quiet : Bool) : (engine.recalculate document text cursor quiet).1.processed
      = (formulaTables text).countP (engine.processes document text cursor quiet) := by
  rcases hs : engine.skips document text quiet with _ | _
  · rw [recalculate_of_not_skips hs, publish_eq]
    show (engine.pass document text (scopeOf text cursor quiet)).processed = _
    rw [pass_processed]
    refine List.countP_congr fun span _ => ?_
    rw [processes, hs]
    rfl
  · rw [recalculate_of_skips hs]
    symm
    rw [List.countP_eq_zero]
    intro span _
    rw [processes, hs]
    exact Bool.false_ne_true

/-- After a recalculation each formula cell of each table that it has processed is remembered at
its place in the document, with its text and with the text that it is displayed with. -/
theorem recalculate_notes_cells {engine : Engine} (h : engine.index.lookup.CodesCurrencies)
    (document text : String) (cursor : Option Nat) (quiet : Bool) :
    let after := engine.recalculate document text cursor quiet
    after.1.processed
        = (formulaTables text).countP (engine.processes document text cursor quiet) ∧
      ∀ span ∈ formulaTables text, engine.processes document text cursor quiet span = true →
        ∀ p formula, cellText? span.lines p = some formula → isFormulaText formula = true →
          cellText? (Text.lines text) (span.placeOf p) = some formula ∧
          after.2.formulaAt? document (span.placeOf p) = some formula ∧
          ∃ cell, (computeTable engine.index.lookup engine.formatter span.lines).grid.cell? p
              = some cell ∧ cell.content = formula ∧
            after.2.displayedAt? document (span.placeOf p)
              = some (cell.shownText engine.index.lookup engine.formatter) := by
  intro after
  refine ⟨recalculate_processed engine document text cursor quiet,
    fun span hspan hprocesses p formula ht hf => ?_⟩
  obtain ⟨hskips, hcomputes⟩ := Bool.and_eq_true_iff.1 hprocesses
  have hafter : after = engine.publish document (engine.pass document text
      (scopeOf text cursor quiet)) := recalculate_of_not_skips (by simpa using hskips) cursor
  have hmemory : after.2.memoryOf document
      = (engine.pass document text (scopeOf text cursor quiet)).memory := by
    obtain ⟨-, -, -, hmemory⟩ := publish_frame engine document
      (engine.pass document text (scopeOf text cursor quiet))
    rw [hafter, hmemory, if_pos rfl]
  unfold formulaAt? displayedAt?
  rw [hmemory]
  exact ⟨(stands_of_mem_tables (List.mem_of_mem_filter hspan)).cellText?_placeOf ht,
    pass_notes h hspan hcomputes p formula ht hf⟩

theorem recalculate_notes_cells_two_tables :
    let before := "| a |\n| =1 | =2 | =3 |"
    let text := "| a | =NOTE(\"R\").v |\n| =1/0 |\n\n| =2 | b |\n| c |"
    let rates : Index := (∅ : Index).insert "R" ((∅ : VariableSet).insert "v" ⟨1500, some "EUR"⟩)
    let start : Engine := { digest := Text.rolling }
    let engine : Engine := { (start.recalculate "d" before none false).2 with index := rates }
    let after := engine.recalculate "d" text none false
    engine.index.lookup.CodesCurrencies ∧ after.1.processed = 2 ∧
      after.2.formulaAt? "d" ⟨0, 1⟩ = some "=NOTE(\"R\").v" ∧
      after.2.displayedAt? "d" ⟨0, 1⟩ = some "€1,500.00" ∧
      after.2.formulaAt? "d" ⟨1, 0⟩ = some "=1/0" ∧
      after.2.displayedAt? "d" ⟨1, 0⟩ = some "=1/0" ∧
      after.2.displayedAt? "d" ⟨3, 0⟩ = some "2" := by
  intro before text rates start engine after
  have hcodes : engine.index.lookup.CodesCurrencies := by
    intro document name v hv code hcode
    simp only [engine, rates, Index.lookup, ExtTreeMap.getElem?_insert] at hv
    split at hv
    · rw [Option.bind_some, ExtTreeMap.getElem?_insert] at hv
      split at hv
      · cases hv
        cases hcode
        decide
      · simp at hv
    · simp at hv
  let first : Span := ⟨0, ["| a | =NOTE(\"R\").v |", "| =1/0 |"]⟩
  let second : Span := ⟨3, ["| =2 | b |", "| c |"]⟩
  have hfirst : first ∈ formulaTables text ∧
      engine.processes "d" text none false first = true := by decide +kernel
  have hsecond : second ∈ formulaTables text ∧
      engine.processes "d" text none false second = true := by decide +kernel
  obtain ⟨hcount, hnotes⟩ := recalculate_notes_cells hcodes "d" text none false
  have hshown : ∀ (span : Span) (p : Place) (shown : String),
      (((computeTable engine.index.lookup engine.formatter span.lines).grid.cell? p).map
        fun cell => cell.shownText engine.index.lookup engine.formatter) = some shown →
      (∃ cell, (computeTable engine.index.lookup engine.formatter span.lines).grid.cell? p
        = some cell ∧ cell.content = (cellText? span.lines p).getD "" ∧
        after.2.displayedAt? "d" (span.placeOf p)
          = some (cell.shownText engine.index.lookup engine.formatter)) →
      after.2.displayedAt? "d" (span.placeOf p) = some shown := by
    rintro span p shown h ⟨cell, hcell, -, hdisplayed⟩
    rw [hdisplayed, ← h, hcell, Option.map_some]
  obtain ⟨-, hnote, hnote'⟩ := hnotes first hfirst.1 hfirst.2 ⟨0, 1⟩ "=NOTE(\"R\").v"
    (by decide +kernel) (by decide)
  obtain ⟨-, hfailed, hfailed'⟩ := hnotes first hfirst.1 hfirst.2 ⟨1, 0⟩ "=1/0"
    (by decide +kernel) (by decide)
  obtain ⟨-, -, htwo'⟩ := hnotes second hsecond.1 hsecond.2 ⟨0, 0⟩ "=2"
    (by decide +kernel) (by decide)
  exact ⟨hcodes, hcount.trans (by decide +kernel), hnote,
    hshown first ⟨0, 1⟩ "€1,500.00" (by decide +kernel) hnote', hfailed,
    hshown first ⟨1, 0⟩ "=1/0" (by decide +kernel) hfailed',
    hshown second ⟨0, 0⟩ "2" (by decide +kernel) htwo'⟩

end Engine

end ComputedTables
