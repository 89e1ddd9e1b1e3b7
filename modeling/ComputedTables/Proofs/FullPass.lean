import ComputedTables.Engine.Operations
import ComputedTables.Proofs.References
import ComputedTables.Proofs.Spans

/-!
# Passes over whole documents

A pass without a scope visits every table with formulas.  When whatever it takes from memory is what
computing the table would have given (`Trusts`), the pass collects exactly the published variables
of its text and remembers exactly the tables of the text (`pass_whole`).  So recalculating without a
cursor either finds the text unchanged or replaces the entry of the document by what the text
publishes (`recalculate_whole`).
-/

namespace ComputedTables

open Std (ExtTreeMap)

/-- What is remembered of a table when it is computed. -/
def Span.computed (digest : Text.Digest) (lookup : Lookup) (formatter : Formatter) (span : Span) :
    RememberedTable :=
  let computed := computeTable lookup formatter span.lines
  { source := span.digest digest, lines := computed.lines, published := computed.published }

def rememberedTables (digest : Text.Digest) (lookup : Lookup) (formatter : Formatter)
    (text : String) : ExtTreeMap Nat RememberedTable :=
  (formulaTables text).foldl
    (fun ts span => ts.insert span.start (span.computed digest lookup formatter)) ∅

variable {digest : Text.Digest} {lookup other : Lookup} {formatter : Formatter}

theorem Span.computed_congr {span : Span} {text : String} (hs : span ∈ tables text)
    (h : Lookup.AgreeOn (textReferences text) lookup other) :
    span.computed digest lookup formatter = span.computed digest other formatter := by
  unfold Span.computed
  rw [computeTable_congr formatter (h.mono fun r hr => List.mem_flatMap.2 ⟨span, hs, hr⟩)]

/-! ### Maps filled from a list -/

theorem getElem?_foldl_insert_of_not_mem {f : Span → RememberedTable} : ∀ (spans : List Span)
    (ts : ExtTreeMap Nat RememberedTable) {start : Nat}, start ∉ spans.map Span.start →
      (spans.foldl (fun ts span => ts.insert span.start (f span)) ts)[start]? = ts[start]?
  | [], _, _, _ => rfl
  | span :: spans, ts, start, h => by
    rw [List.map_cons, List.mem_cons, not_or] at h
    rw [List.foldl_cons, getElem?_foldl_insert_of_not_mem spans _ h.2, ExtTreeMap.getElem?_insert,
      if_neg]
    rw [Std.LawfulEqOrd.compare_eq_iff_eq]
    exact fun he => h.1 he.symm

theorem getElem?_foldl_insert_of_mem {f : Span → RememberedTable} : ∀ (spans : List Span)
    (ts : ExtTreeMap Nat RememberedTable), (spans.map Span.start).Nodup → ∀ {span : Span},
      span ∈ spans →
        (spans.foldl (fun ts span => ts.insert span.start (f span)) ts)[span.start]?
          = some (f span)
  | first :: spans, ts, hd, span, hs => by
    rw [List.map_cons, List.nodup_cons] at hd
    rw [List.foldl_cons]
    rcases List.mem_cons.1 hs with rfl | hs
    · rw [getElem?_foldl_insert_of_not_mem spans _ hd.1, ExtTreeMap.getElem?_insert_self]
    · exact getElem?_foldl_insert_of_mem spans _ hd.2 hs

theorem getElem?_rememberedTables {text : String} {span : Span} (hs : span ∈ formulaTables text) :
    (rememberedTables digest lookup formatter text)[span.start]?
      = some (span.computed digest lookup formatter) :=
  getElem?_foldl_insert_of_mem _ _ (formulaTables_starts_nodup text) hs

theorem rememberedTables_eq_some {text : String} {start : Nat} {table : RememberedTable}
    (h : (rememberedTables digest lookup formatter text)[start]? = some table) :
    ∃ span ∈ formulaTables text, span.start = start ∧
      table = span.computed digest lookup formatter := by
  by_cases hm : start ∈ (formulaTables text).map Span.start
  · obtain ⟨span, hs, rfl⟩ := List.mem_map.1 hm
    rw [getElem?_rememberedTables hs] at h
    cases h
    exact ⟨span, hs, rfl, rfl⟩
  · unfold rememberedTables at h
    rw [getElem?_foldl_insert_of_not_mem _ _ hm] at h
    simp at h

theorem rememberedTables_congr {text : String}
    (h : Lookup.AgreeOn (textReferences text) lookup other) :
    rememberedTables digest lookup formatter text
      = rememberedTables digest other formatter text := by
  refine ExtTreeMap.ext_getElem? fun start => ?_
  by_cases hm : start ∈ (formulaTables text).map Span.start
  · obtain ⟨span, hs, rfl⟩ := List.mem_map.1 hm
    rw [getElem?_rememberedTables hs, getElem?_rememberedTables hs,
      Span.computed_congr (List.mem_of_mem_filter hs) h]
  · unfold rememberedTables
    rw [getElem?_foldl_insert_of_not_mem _ _ hm, getElem?_foldl_insert_of_not_mem _ _ hm]

/-! ### One table -/

namespace DocumentMemory

theorem noteFormulas_frame (m : DocumentMemory) (span : Span) :
    (m.noteFormulas span).text = m.text ∧ (m.noteFormulas span).tables = m.tables :=
  List.foldlRecOn (motive := fun (n : DocumentMemory) => n.text = m.text ∧ n.tables = m.tables)
    _ _ ⟨rfl, rfl⟩ fun _ h _ _ => h

theorem noteDisplayedLines_frame (m : DocumentMemory) (start : Nat) (lines : List String) :
    (m.noteDisplayedLines start lines).text = m.text ∧
      (m.noteDisplayedLines start lines).tables = m.tables :=
  List.foldlRecOn (motive := fun (n : DocumentMemory) => n.text = m.text ∧ n.tables = m.tables)
    _ _ ⟨rfl, rfl⟩ fun _ h _ _ => h

theorem compute_spec (m : DocumentMemory) (digest : Text.Digest) (lookup : Lookup)
    (formatter : Formatter) (span : Span) :
    (m.compute digest lookup formatter span).1 = span.computed digest lookup formatter ∧
      (m.compute digest lookup formatter span).2.text = m.text ∧
      (m.compute digest lookup formatter span).2.tables
        = m.tables.insert span.start (span.computed digest lookup formatter) := by
  refine ⟨rfl, ?_, ?_⟩ <;> dsimp only [compute]
  · rw [(noteDisplayedLines_frame _ _ _).1, (noteFormulas_frame m span).1]
  · rw [(noteDisplayedLines_frame _ _ _).2, (noteFormulas_frame m span).2]
    rfl

/-- What is remembered of the tables, as far as it is current, is what computing them gives. -/
def Trusts (m : DocumentMemory) (digest : Text.Digest) (lookup : Lookup) (formatter : Formatter)
    (spans : List Span) : Prop :=
  ∀ span ∈ spans, ∀ table, m.current? digest span = some table →
    table = span.computed digest lookup formatter

theorem trusts_of_tables_empty {m : DocumentMemory} (h : m.tables = ∅) (digest : Text.Digest)
    (lookup : Lookup) (formatter : Formatter) (spans : List Span) :
    m.Trusts digest lookup formatter spans := by
  intro span _ table ht
  unfold current? at ht
  rw [h] at ht
  simp at ht

end DocumentMemory

theorem current?_eq_some {m : DocumentMemory} {span : Span} {table : RememberedTable}
    (h : m.current? digest span = some table) :
    m.tables[span.start]? = some table ∧ table.source = span.digest digest := by
  obtain ⟨ht, hd⟩ := Option.filter_eq_some_iff.1 h
  exact ⟨ht, eq_of_beq hd⟩

theorem insert_eq_self {ts : ExtTreeMap Nat RememberedTable} {start : Nat} {table : RememberedTable}
    (h : ts[start]? = some table) : ts.insert start table = ts := by
  refine ExtTreeMap.ext_getElem? fun k => ?_
  rw [ExtTreeMap.getElem?_insert]
  split
  · rename_i hk
    rw [← Std.LawfulEqOrd.compare_eq_iff_eq.1 hk, h]
  · rfl

/-- A table that is visited without a scope is collected and remembered as if it was computed. -/
theorem visit_whole {pass : Pass} {span : Span}
    (h : pass.memory.Trusts digest lookup formatter [span]) :
    let visited := pass.visit digest lookup formatter none span
    visited.collected = pass.collected ∪ (span.computed digest lookup formatter).published ∧
      visited.complete = pass.complete ∧ visited.memory.text = pass.memory.text ∧
      visited.memory.tables
        = pass.memory.tables.insert span.start (span.computed digest lookup formatter) := by
  intro visited
  have hin : inScope none span = true := rfl
  rcases hc : pass.memory.current? digest span with _ | table
  · have hv : visited = { pass.collect (span.computed digest lookup formatter) with
        memory := (pass.memory.compute digest lookup formatter span).2
        processed := pass.processed + 1 } := by
      show Pass.visit digest lookup formatter none pass span = _
      unfold Pass.visit
      rw [hin, hc]
      rfl
    obtain ⟨-, htext, htables⟩ := pass.memory.compute_spec digest lookup formatter span
    rw [hv]
    exact ⟨rfl, rfl, htext, htables⟩
  · have hv : visited = { pass.collect table with reused := pass.reused + 1 } := by
      show Pass.visit digest lookup formatter none pass span = _
      unfold Pass.visit
      rw [hin, hc]
    have ht := h span List.mem_cons_self table hc
    subst ht
    rw [hv]
    exact ⟨rfl, rfl, rfl, (insert_eq_self (current?_eq_some hc).1).symm⟩

theorem Pass.foldl_visit_whole : ∀ (spans : List Span) (pass : Pass),
    (spans.map Span.start).Nodup → pass.memory.Trusts digest lookup formatter spans →
      let visited := spans.foldl (Pass.visit digest lookup formatter none) pass
      visited.collected = spans.foldl
          (fun set span => set ∪ (span.computed digest lookup formatter).published)
          pass.collected ∧
        visited.complete = pass.complete ∧ visited.memory.text = pass.memory.text ∧
        visited.memory.tables = spans.foldl
          (fun ts span => ts.insert span.start (span.computed digest lookup formatter))
          pass.memory.tables
  | [], _, _, _ => ⟨rfl, rfl, rfl, rfl⟩
  | span :: spans, pass, hd, h => by
    rw [List.map_cons, List.nodup_cons] at hd
    have hfirst : pass.memory.Trusts digest lookup formatter [span] := fun s hs =>
      h s (List.mem_singleton.1 hs ▸ List.mem_cons_self)
    obtain ⟨hcollected, hcomplete, htext, htables⟩ := visit_whole hfirst
    have htrust : (pass.visit digest lookup formatter none span).memory.Trusts digest lookup
        formatter spans := by
      intro s hs table ht
      refine h s (List.mem_cons_of_mem _ hs) table ?_
      have hne : ¬ compare span.start s.start = .eq := by
        rw [Std.LawfulEqOrd.compare_eq_iff_eq]
        exact fun he => hd.1 (he ▸ List.mem_map_of_mem hs)
      unfold DocumentMemory.current? at ht ⊢
      rwa [htables, ExtTreeMap.getElem?_insert, if_neg hne] at ht
    obtain ⟨ic, im, ix, it⟩ := Pass.foldl_visit_whole spans _ hd.2 htrust
    simp only [List.foldl_cons]
    exact ⟨by rw [ic, hcollected], by rw [im, hcomplete], by rw [ix, htext], by rw [it, htables]⟩

/-! ### A whole pass -/

namespace Engine

theorem forgotten_of_memory_empty {engine : Engine} (h : engine.memory = ∅) (document : String) :
    (engine.memoryOf document).text = none ∧ (engine.memoryOf document).tables = ∅ := by
  unfold memoryOf
  rw [h, ExtTreeMap.getD_empty]
  exact ⟨rfl, rfl⟩

theorem memoryOf_remember (engine : Engine) (document other : String) (m : DocumentMemory) :
    (engine.remember document m).memoryOf other
      = if document = other then m else engine.memoryOf other := by
  unfold memoryOf remember
  simp only [ExtTreeMap.getD_insert, Std.LawfulEqOrd.compare_eq_iff_eq]

theorem memoryOf_modifyMemory (engine : Engine) (document other : String)
    (f : DocumentMemory → DocumentMemory) : (engine.modifyMemory document f).memoryOf other
      = if document = other then f (engine.memoryOf document) else engine.memoryOf other :=
  memoryOf_remember engine document other _

theorem memoryOf_invalidate_self (engine : Engine) (document : String) :
    (engine.invalidate document).memoryOf document = (engine.memoryOf document).invalidated := by
  unfold invalidate
  rw [memoryOf_modifyMemory, if_pos rfl]

theorem memoryOf_invalidate_other (engine : Engine) {document other : String}
    (h : other ≠ document) :
    (engine.invalidate document).memoryOf other = engine.memoryOf other := by
  unfold invalidate
  rw [memoryOf_modifyMemory, if_neg h.symm]

theorem pass_whole {engine : Engine} {document text : String}
    (h : (engine.memoryOf document).Trusts engine.digest engine.index.lookup engine.formatter
      (formulaTables text)) :
    let pass := engine.pass document text none
    pass.collected = publishedVariables engine.index.lookup engine.formatter text ∧
      pass.complete = true ∧ pass.memory.text = some (engine.digest text) ∧
      pass.memory.tables
        = rememberedTables engine.digest engine.index.lookup engine.formatter text := by
  intro pass
  obtain ⟨hcollected, hcomplete, htext, htables⟩ := Pass.foldl_visit_whole (formulaTables text)
    { memory := { engine.memoryOf document with text := some (engine.digest text) } }
    (formulaTables_starts_nodup text) h
  generalize hvisited : (formulaTables text).foldl
    (Pass.visit engine.digest engine.index.lookup engine.formatter none)
    { memory := { engine.memoryOf document with text := some (engine.digest text) } } = visited at *
  have hpass : pass = { visited with
      memory := visited.memory.keepTables ((formulaTables text).map Span.start) } := by
    show engine.pass document text none = _
    unfold Engine.pass
    simp only [hvisited]
    rfl
  rw [hpass]
  refine ⟨hcollected, hcomplete, htext, ExtTreeMap.ext_getElem? fun start => ?_⟩
  simp only [DocumentMemory.keepTables]
  rw [ExtTreeMap.getElem?_filter', htables]
  by_cases hm : start ∈ (formulaTables text).map Span.start
  · obtain ⟨span, hs, rfl⟩ := List.mem_map.1 hm
    rw [getElem?_foldl_insert_of_mem _ _ (formulaTables_starts_nodup text) hs,
      getElem?_rememberedTables hs]
    simp [List.mem_map_of_mem hs]
  · unfold rememberedTables
    rw [getElem?_foldl_insert_of_not_mem _ _ hm, getElem?_foldl_insert_of_not_mem _ _ hm]
    simp [hm]

/-- What a whole pass over a document makes of the engine: the entry and the memory of the document
are those of the text, and nothing else is different. -/
structure Passed (engine after : Engine) (document text : String) : Prop where
  settings : after.settings = engine.settings
  policy : after.policy = engine.policy
  digest : after.digest = engine.digest
  index : after.index = engine.index.publish document
    (publishedVariables engine.index.lookup engine.formatter text)
  noted : (after.memoryOf document).text = some (engine.digest text)
  tables : (after.memoryOf document).tables
    = rememberedTables engine.digest engine.index.lookup engine.formatter text
  memory : ∀ other, other ≠ document → after.memoryOf other = engine.memoryOf other

theorem adopt_frame (engine : Engine) (changed : Option Index) :
    (engine.adopt changed).2.index = changed.getD engine.index ∧
      (engine.adopt changed).2.settings = engine.settings ∧
      (engine.adopt changed).2.policy = engine.policy ∧
      (engine.adopt changed).2.memory = engine.memory := by
  rcases changed with _ | index <;> exact ⟨rfl, rfl, rfl, rfl⟩

theorem digest_adopt (engine : Engine) (changed : Option Index) :
    (engine.adopt changed).2.digest = engine.digest := by
  rcases changed with _ | index <;> rfl

theorem digest_publish (engine : Engine) (document : String) (pass : Pass) :
    (engine.publish document pass).2.digest = engine.digest :=
  digest_adopt (engine.remember document pass.memory) _

/-- Recalculating a document does not change how digests are taken. -/
@[simp] theorem digest_recalculate (engine : Engine) (document text : String)
    (cursor : Option Nat) (quiet : Bool) :
    (engine.recalculate document text cursor quiet).2.digest = engine.digest := by
  unfold recalculate
  split
  · rfl
  · exact digest_publish engine document _

theorem publish_complete {engine : Engine} {pass : Pass} (hpolicy : engine.policy = .clear)
    (hpass : pass.complete = true) (document : String) :
    let after := (engine.publish document pass).2
    after.index = engine.index.publish document pass.collected ∧
      after.settings = engine.settings ∧ after.policy = engine.policy ∧
      ∀ other, after.memoryOf other
        = if document = other then pass.memory else engine.memoryOf other := by
  intro after
  have hafter : after = ((engine.remember document pass.memory).adopt
      (engine.index.replace? .clear document pass.collected)).2 := by
    show (engine.publish document pass).2 = _
    unfold publish
    rw [hpass, hpolicy]
    rfl
  obtain ⟨hi, hs, hp, hm⟩ := adopt_frame (engine.remember document pass.memory)
    (engine.index.replace? .clear document pass.collected)
  rw [hafter]
  refine ⟨hi, hs, hp, fun other => ?_⟩
  unfold memoryOf
  rw [hm]
  exact memoryOf_remember engine document other pass.memory

theorem scopeOf_none (text : String) (quiet : Bool) : scopeOf text none quiet = none := by
  unfold scopeOf
  split <;> rfl

/-- Without a cursor a document is passed over as a whole, unless a quiet pass finds it
unchanged. -/
theorem recalculate_whole {engine : Engine} {document text : String}
    (hpolicy : engine.policy = .clear) (h : (engine.memoryOf document).Trusts engine.digest
      engine.index.lookup engine.formatter (formulaTables text)) (quiet : Bool) :
    (quiet = true ∧ (engine.memoryOf document).text = some (engine.digest text) ∧
      (engine.recalculate document text none quiet).2 = engine) ∨
    engine.Passed (engine.recalculate document text none quiet).2 document text := by
  unfold recalculate
  by_cases hq : (quiet && (engine.memoryOf document).text == some (engine.digest text)) = true
  · rw [if_pos hq]
    rw [Bool.and_eq_true, beq_iff_eq] at hq
    exact .inl ⟨hq.1, hq.2, rfl⟩
  · rw [if_neg hq, scopeOf_none]
    obtain ⟨hcollected, hcomplete, htext, htables⟩ := pass_whole h
    obtain ⟨hi, hs, hp, hm⟩ := publish_complete hpolicy hcomplete document
    refine .inr ⟨hs, hp, digest_publish engine document _, ?_, ?_, ?_, ?_⟩
    · rw [hi, hcollected]
    · rw [hm, if_pos rfl, htext]
    · rw [hm, if_pos rfl, htables]
    · intro other hne
      rw [hm, if_neg fun he => hne he.symm]

end Engine

end ComputedTables
