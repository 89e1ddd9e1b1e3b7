import ComputedTables.Proofs.SkippedPasses
import ComputedTables.Proofs.WrittenBack

/-!
# Rendered texts

Rendering a text replaces each line of a table with formulas by one that was computed from just that
table, and leaves all other lines (`render_replaces_lines`).  A remembered table is taken only where
one with the same lines starts now, and what is remembered at other lines is dropped.  No formula
writes a line feed.  The currencies of a stored index are taken as they are, so one of them may hold
a line feed, and then the line it is displayed in is broken in two (`render_breaks_line`).
-/

namespace ComputedTables

open Engine

variable {T C : String → Prop} {document text : String}

/-- No table of these texts can be taken for another one of a text: where it has the same digest, it
has the same lines. -/
def TellsTablesApart (digest : Text.Digest) (T : String → Prop) (text : String) : Prop :=
  ∀ other, T other → ∀ source ∈ formulaTables other, ∀ span ∈ formulaTables text,
    source.digest digest = span.digest digest → source.lines = span.lines

/-- All currencies are among the given ones. -/
def Lookup.Codes (C : String → Prop) (lookup : Lookup) : Prop :=
  ∀ document name v, lookup document name = some v → ∀ code ∈ v.currency, C code

/-- The engines that a caller comes to with texts and with indices of its own: it may put another
index in place at any time, and do what it likes with the policy, the store and the cell texts. -/
inductive Engine.Reached (T C : String → Prop) : Engine → Prop where
  | fresh {engine : Engine} : engine.Fresh → engine.index.lookup.Codes C → Reached T C engine
  | act {engine : Engine} : Reached T C engine → ∀ action,
      (∀ text, action.text? = some text → T text) → Reached T C (engine.act action).2
  | changed {engine after : Engine} : Reached T C engine → after.settings = engine.settings →
      after.digest = engine.digest →
      (∀ document, (after.memoryOf document).Matches (engine.memoryOf document)) →
        after.index.lookup.Codes C → Reached T C after

/-- What stands in the place of the lines of a text when its tables are replaced by those that an
engine remembers. -/
structure Engine.Replaces (engine : Engine) (document text : String) (lines : List String) :
    Prop where
  length : lines.length = (Text.lines text).length
  outside : ∀ n, (∀ span ∈ formulaTables text,
    n < span.start ∨ span.start + span.lines.length ≤ n) → lines[n]? = (Text.lines text)[n]?
  inside : ∀ span ∈ formulaTables text, ∃ (index : Index) (computed : List String),
    computed = (computeTable index.lookup engine.formatter span.lines).lines ∧
      engine.computedLines? document span.start = some computed ∧
      computed.length = span.lines.length ∧ span.start + computed.length ≤ lines.length ∧
      ∀ r < computed.length, lines[span.start + r]? = computed[r]?
  nowhere : ∀ first, (∀ span ∈ formulaTables text, span.start ≠ first) →
    engine.computedLines? document first = none

/-! ### Line feeds -/

/-- Currencies are written in formulas or among the given ones. -/
def codeShape (C : String → Prop) : EntryShape where
  Fits _ v := ∀ code ∈ v.currency, IsCurrency code ∨ C code
  Entry set := ∀ (name : String) (v : Variable), set[name]? = some v →
    ∀ code ∈ v.currency, IsCurrency code ∨ C code
  fits h hv := h _ _ hv
  entry _ h := h
  row h hrow code hcode := by
    obtain ⟨-, -, hcurrency⟩ := rowVariable?_eq_some hrow
    obtain ⟨formula, hformula⟩ := hcurrency code hcode
    rcases resultCurrency_cases hformula with hc | ⟨document, name, v, hv, hc⟩
    · exact .inl hc
    · exact h document name v hv code hc

theorem Lookup.Codes.ofIndex {index : Index} (h : index.lookup.Codes C) :
    (codeShape C).OfIndex index := by
  intro document set hset name v hv code hcode
  have hlookup : index.lookup document name = some v := by
    rw [Index.lookup, hset]
    exact hv
  exact .inr (h document name v hlookup code hcode)

theorem IsCurrency.newline_not_mem {code : String} (h : IsCurrency code) : '\n' ∉ code.toList :=
  fun hn => absurd (h.2 _ hn) (by decide)

theorem newline_not_mem_computeTable {lookup : Lookup} (hlookup : (codeShape C).OfLookup lookup)
    (hC : ∀ code, C code → '\n' ∉ code.toList) (settings : Settings) {lines : List String}
    (hlines : ∀ line ∈ lines, '\n' ∉ line.toList) {line : String}
    (h : line ∈ (computeTable lookup settings.formatter lines).lines) : '\n' ∉ line.toList := by
  rw [lines_computeTable] at h
  obtain ⟨texts, ht, rfl⟩ := List.mem_map.1 h
  refine newline_not_mem_rowLine fun text htext => ?_
  obtain ⟨row, hr, rfl⟩ := List.mem_map.1 ht
  obtain ⟨cell, hc, rfl⟩ := List.mem_map.1 htext
  unfold Cell.shownText
  split
  · refine Formatter.newline_not_mem_text settings _ fun code hcode => ?_
    rcases resultCurrency_cases hcode with h | ⟨document, name, v, hv, h⟩
    · exact h.newline_not_mem
    · exact (hlookup document name v hv code h).elim IsCurrency.newline_not_mem (hC code)
  · obtain ⟨source, hsource, hcell⟩ := exists_line_of_mem_computeTable lookup _ lines hr hc
    exact fun hn => hlines source hsource (mem_of_mem_lineCells hcell hn)

/-! ### Reached engines -/

theorem Engine.Reached.kept {engine : Engine} (h : engine.Reached T C) :
    (codeShape C).Kept T engine := by
  induction h with
  | fresh hfresh hcodes => exact ⟨hcodes.ofIndex, grounded_of_fresh hfresh⟩
  | act _ action htext ih => exact ih.act action htext
  | @changed engine after _ hsettings hdigest hmatches hcodes ih =>
    refine ⟨hcodes.ofIndex, fun document start table htable => ?_⟩
    have hformatter : after.formatter = engine.formatter := congrArg Settings.formatter hsettings
    rw [(hmatches document).tables] at htable
    rw [hformatter, hdigest]
    exact ih.tables document start table htable

theorem Engine.Reached.withIndex {engine : Engine} (h : engine.Reached T C) {index : Index}
    (hcodes : index.lookup.Codes C) : Engine.Reached T C { engine with index } :=
  .changed h rfl rfl (fun _ => .refl _) hcodes

namespace Engine

variable {I : Index → Prop} {engine : Engine}

/-- What is remembered of a table after a pass over the whole text was computed from its lines. -/
theorem Grounded.computedLines? (h : engine.Grounded T I) (hindex : I engine.index)
    (happart : TellsTablesApart engine.digest T text) {span : Span}
    (hs : span ∈ formulaTables text) :
    ∃ index, I index ∧
      (engine.recalculate document text none false).2.computedLines? document span.start
        = some (computeTable index.lookup engine.formatter span.lines).lines := by
  have hlines : (engine.recalculate document text none false).2.computedLines? document span.start
      = _ := computedLines?_recalculate (skips_loud engine document text) hs rfl
  rcases hc : (engine.memoryOf document).current? engine.digest span with _ | table
  · rw [hc, Option.getD_none] at hlines
    exact ⟨engine.index, hindex, hlines⟩
  · obtain ⟨hremembered, hsource⟩ := current?_eq_some hc
    obtain ⟨other, source, index, hother, hspan, -, hi, rfl⟩ :=
      h document span.start table hremembered
    have hsame : source.lines = span.lines := happart other hother source hspan span hs hsource
    rw [hc, Option.getD_some] at hlines
    refine ⟨index, hi, hlines.trans ?_⟩
    rw [← hsame]
    rfl

theorem computedLines?_outside (engine : Engine) (document : String) {first : Nat}
    (h : ∀ span ∈ formulaTables text, span.start ≠ first) :
    (engine.recalculate document text none false).2.computedLines? document first = none := by
  have hcovers := engine.pass_covers document text none
  rw [Engine.computedLines?, memoryOf_recalculate (skips_loud engine document text) none]
  exact congrArg _ (hcovers.outside first fun span hs _ => h span hs)

/-- The lines that stand in a text when its tables are replaced by what is remembered. -/
def replacedLines (engine : Engine) (document text : String) : List String :=
  (formulaTables text).foldl (fun lines span => replaceLines lines span.start
    ((engine.computedLines? document span.start).getD [])) (Text.lines text)

/-- Only tables with formulas are replaced. -/
theorem withComputedTables_eq (hnowhere : ∀ first,
    (∀ span ∈ formulaTables text, span.start ≠ first) → engine.computedLines? document first = none)
    (hinside : ∀ span ∈ formulaTables text,
      (engine.computedLines? document span.start).isSome = true) :
    engine.withComputedTables document text
      = Text.unlines (engine.replacedLines document text) := by
  unfold withComputedTables replacedLines formulaTables
  rw [List.foldl_filter]
  refine congrArg Text.unlines (List.foldl_ext _ _ _ fun lines span hs => ?_)
  split
  · next computed hcomputed =>
    have hmarks : anyMarksFormula span.lines = true := by
      by_contra hnot
      have hnone := hnowhere span.start fun s hs' he => hnot ?_
      · rw [hnone] at hcomputed
        cases hcomputed
      · have hsame : s = span := List.inj_on_of_nodup_map (tables_starts_nodup text)
          (List.mem_of_mem_filter hs') hs he
        exact hsame ▸ (List.mem_filter.1 hs').2
    rw [if_pos hmarks, hcomputed, Option.getD_some]
  · next hnone =>
    rw [if_neg]
    intro hmarks
    have hsome := hinside span (List.mem_filter.2 ⟨hs, hmarks⟩)
    rw [hnone] at hsome
    cases hsome

theorem replaces_of_computed
    (hnowhere : ∀ first, (∀ span ∈ formulaTables text, span.start ≠ first) →
      engine.computedLines? document first = none)
    (hinside : ∀ span ∈ formulaTables text, ∃ index : Index,
      engine.computedLines? document span.start
        = some (computeTable index.lookup engine.formatter span.lines).lines) :
    engine.Replaces document text (engine.replacedLines document text) := by
  have hlength : ∀ span ∈ formulaTables text,
      ((engine.computedLines? document span.start).getD []).length = span.lines.length := by
    intro span hs
    obtain ⟨index, hcomputed⟩ := hinside span hs
    rw [hcomputed, Option.getD_some, length_computeTable]
  have hend : ∀ span ∈ formulaTables text,
      span.start + span.lines.length ≤ (Text.lines text).length :=
    fun span hs => (stands_of_mem_tables (List.mem_of_mem_filter hs)).end_le
  have hcount : (engine.replacedLines document text).length = (Text.lines text).length :=
    length_foldl_replaceLines _ _ _ hend hlength
  obtain ⟨hin, hout⟩ := getElem?_foldl_replaceLines
    (fun span => (engine.computedLines? document span.start).getD []) _ _ hend hlength
    (formulaTables_pairwise text)
  refine ⟨hcount, hout, fun span hs => ?_, hnowhere⟩
  obtain ⟨index, hcomputed⟩ := hinside span hs
  have hlen := hlength span hs
  have hlines := hin span hs
  rw [hcomputed, Option.getD_some] at hlen hlines
  rw [← hlen] at hlines
  refine ⟨index, _, rfl, hcomputed, hlen, ?_, hlines⟩
  rw [hcount, hlen]
  exact hend span hs

/-- A line of a rendered text is one of the text, or one of a computed table. -/
theorem Replaces.mem {lines : List String} (h : engine.Replaces document text lines) {line : String}
    (hl : line ∈ lines) : line ∈ Text.lines text ∨ ∃ span ∈ formulaTables text,
      ∃ computed, engine.computedLines? document span.start = some computed ∧ line ∈ computed := by
  obtain ⟨n, hn⟩ := List.getElem?_of_mem hl
  by_cases hout : ∀ span ∈ formulaTables text, n < span.start ∨ span.start + span.lines.length ≤ n
  · rw [h.outside n hout] at hn
    exact .inl (List.mem_of_getElem? hn)
  · obtain ⟨span, hs, hspan⟩ : ∃ span ∈ formulaTables text,
        ¬ (n < span.start ∨ span.start + span.lines.length ≤ n) := by
      simpa only [not_forall, exists_prop] using hout
    obtain ⟨index, computed, -, hcomputed, hlen, -, hlines⟩ := h.inside span hs
    have hline := hlines (n - span.start) (by omega)
    rw [show span.start + (n - span.start) = n by omega, hn] at hline
    exact .inr ⟨span, hs, computed, hcomputed, List.mem_of_getElem? hline.symm⟩

/-- Rendering a text replaces each line of a table with formulas by the one that stands in its place
in the table as it was computed from its own lines, and leaves all others.  If no currency that the
caller has put into the index holds a line feed, the rendered text has just these lines. -/
theorem render_replaces_lines (h : engine.Reached T C) (document : String)
    (happart : TellsTablesApart engine.digest T text) :
    let rendered := engine.render document text
    ∃ lines, rendered.1 = Text.unlines lines ∧ rendered.2.Replaces document text lines ∧
      ((∀ code, C code → '\n' ∉ code.toList) → Text.lines rendered.1 = lines) := by
  intro rendered
  have hformatter : rendered.2.formatter = engine.formatter :=
    congrArg Settings.formatter
      (publish_frame engine document (engine.pass document text none)).1
  have hkept := h.kept
  have hinside : ∀ span ∈ formulaTables text, ∃ index, (codeShape C).OfIndex index ∧
      rendered.2.computedLines? document span.start
        = some (computeTable index.lookup rendered.2.formatter span.lines).lines := by
    intro span hs
    rw [hformatter]
    exact hkept.tables.computedLines? hkept.index happart hs
  have hnowhere : ∀ first, (∀ span ∈ formulaTables text, span.start ≠ first) →
      rendered.2.computedLines? document first = none :=
    fun first => computedLines?_outside engine document
  have hsome : ∀ span ∈ formulaTables text,
      (rendered.2.computedLines? document span.start).isSome = true := by
    intro span hs
    obtain ⟨index, -, hcomputed⟩ := hinside span hs
    rw [hcomputed]
    rfl
  have htext : rendered.1 = Text.unlines (rendered.2.replacedLines document text) :=
    withComputedTables_eq hnowhere hsome
  have hreplaces : rendered.2.Replaces document text (rendered.2.replacedLines document text) :=
    replaces_of_computed hnowhere fun span hs => (hinside span hs).imp fun _ => And.right
  refine ⟨_, htext, hreplaces, fun hC => ?_⟩
  rw [htext]
  refine Text.lines_unlines ?_ fun line hl => ?_
  · rw [← List.length_pos_iff, hreplaces.length]
    exact List.length_pos_iff.2 (Text.lines_ne_nil text)
  · rcases hreplaces.mem hl with hsource | ⟨span, hs, computed, hcomputed, hline⟩
    · exact Text.newline_not_mem hsource
    · obtain ⟨index, hindex, hlines⟩ := hinside span hs
      rw [hlines, Option.some.injEq] at hcomputed
      subst hcomputed
      refine newline_not_mem_computeTable hindex.lookup hC _ (fun l hl => ?_) hline
      exact Text.newline_not_mem
        ((stands_of_mem_tables (List.mem_of_mem_filter hs)).mem_lines hl)

theorem render_replaces_lines_shifted :
    let before := "| a | =1 |\n| b |"
    let text := "x\n| a | =NOTE(\"R\").v |\n| c |"
    let rates : Index := (∅ : Index).insert "R" ((∅ : VariableSet).insert "v" ⟨1500, some "EUR"⟩)
    let start : Engine := { digest := Text.rolling }
    let engine : Engine :=
      { (start.act (.recalculate "d" before none false)).2 with index := rates }
    let rendered := engine.render "d" text
    engine.Reached (· = before) (· = "EUR") ∧ TellsTablesApart engine.digest (· = before) text ∧
      engine.computedLines? "d" 0 = some ["| a | 1 |", "| b |"] ∧
      rendered.2.computedLines? "d" 0 = none ∧ (Text.lines rendered.1).length = 3 ∧
      Text.lines rendered.1 = ["x", "| a | €1,500.00 |", "| c |"] := by
  intro before text rates start engine rendered
  have hcodes : rates.lookup.Codes (· = "EUR") := by
    intro document name v hv code hcode
    simp only [rates, Index.lookup, Std.ExtTreeMap.getElem?_insert] at hv
    split at hv
    · rw [Option.bind_some, Std.ExtTreeMap.getElem?_insert] at hv
      split at hv
      · cases hv
        cases hcode
        rfl
      · simp at hv
    · simp at hv
  have hreached : engine.Reached (· = before) (· = "EUR") := by
    have hstart : start.Reached (· = before) (· = "EUR") :=
      .fresh (forgotten_of_memory_empty rfl) fun _ _ _ hv => by simp [start, Index.lookup] at hv
    exact (hstart.act (.recalculate "d" before none false)
      fun _ ht => (Option.some.inj ht).symm).withIndex hcodes
  have happart : TellsTablesApart engine.digest (· = before) text := by
    rintro _ rfl
    decide +kernel
  have hold : engine.computedLines? "d" 0 = some ["| a | 1 |", "| b |"] := by decide +kernel
  obtain ⟨lines, -, hreplaces, hlines⟩ := render_replaces_lines hreached "d" happart
  have hlines := hlines fun code hcode => by
    rw [hcode]
    decide
  refine ⟨hreached, happart, hold, hreplaces.nowhere 0 (by decide +kernel), ?_, by decide +kernel⟩
  rw [hlines, hreplaces.length]
  decide +kernel

/-- The line in which a currency with a line feed is displayed is broken. -/
theorem render_breaks_line :
    let text := "| a | =NOTE(\"o\").v |\n| b | 1 |"
    let stored : Index := (∅ : Index).insert "o" ((∅ : VariableSet).insert "v" ⟨1, some "A\nB"⟩)
    let engine : Engine :=
      ({ digest := Text.rolling, store := { contents := stored } } : Engine).load
    engine.Reached (fun _ => False) (fun _ => True) ∧
      TellsTablesApart engine.digest (fun _ => False) text ∧
      Text.lines (engine.render "d" text).1 = ["| a | A", "B\u00a01.00 |", "| b | 1 |"] ∧
      (Text.lines (engine.render "d" text).1).length ≠ (Text.lines text).length := by
  intro text stored engine
  have hlines : Text.lines (engine.render "d" text).1
      = ["| a | A", "B\u00a01.00 |", "| b | 1 |"] := by decide +kernel
  refine ⟨.fresh (forgotten_of_memory_empty rfl) fun _ _ _ _ _ _ => trivial,
    fun _ hnone => hnone.elim, hlines, ?_⟩
  rw [hlines]
  decide +kernel

end Engine

end ComputedTables
