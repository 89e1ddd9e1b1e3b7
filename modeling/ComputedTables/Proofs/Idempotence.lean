import ComputedTables.Proofs.IndexChanges
import ComputedTables.Proofs.Provenance

/-!
# Recalculating again

A pass over a whole document leaves every table of it current.  A pass over the same text that finds
all tables current takes each from memory and leaves the memory as it is (`pass_settled`), so it
collects what the first one did, and that does not replace the entry again.  Recalculating a
document once more with the same text, in whatever way, gives back the very same engine
(`recalculate_again`).
-/

namespace ComputedTables

open Std (ExtTreeMap)

variable {digest : Text.Digest} {lookup : Lookup} {formatter : Formatter} {scope : Option Span}

theorem Pass.foldl_visit_reuses (digest : Text.Digest) (lookup : Lookup) (formatter : Formatter)
    (scope : Option Span) : ∀ (spans : List Span) (pass : Pass),
      (∀ span ∈ spans, (pass.memory.current? digest span).isSome = true) →
      let visited := spans.foldl (Pass.visit digest lookup formatter scope) pass
      visited.memory = pass.memory ∧ visited.processed = pass.processed
  | [], _, _ => ⟨rfl, rfl⟩
  | span :: spans, pass, h => by
    obtain ⟨table, ht⟩ := Option.isSome_iff_exists.1 (h span List.mem_cons_self)
    have hfirst : (pass.visit digest lookup formatter scope span).memory = pass.memory ∧
        (pass.visit digest lookup formatter scope span).processed = pass.processed := by
      unfold Pass.visit
      rw [ht]
      rcases inScope scope span with _ | _ <;> exact ⟨rfl, rfl⟩
    have ih := Pass.foldl_visit_reuses digest lookup formatter scope spans
      (pass.visit digest lookup formatter scope span) fun s hs => by
      rw [hfirst.1]
      exact h s (List.mem_cons_of_mem _ hs)
    exact ⟨ih.1.trans hfirst.1, ih.2.trans hfirst.2⟩

theorem finite_collectAll : ∀ (tables : List RememberedTable) {set : VariableSet}, set.Finite →
    (∀ table ∈ tables, table.published.Finite) → (collectAll set tables).Finite
  | [], _, hs, _ => hs
  | table :: tables, _, hs, h =>
    finite_collectAll tables (hs.union (h table List.mem_cons_self)) fun t ht =>
      h t (List.mem_cons_of_mem _ ht)

namespace Pass.Covers

variable {pass : Pass} {m : DocumentMemory} {text : String}

theorem complete_of_whole (h : pass.Covers m digest lookup formatter text none) :
    pass.complete = true := by
  rw [h.complete, List.all_eq_true]
  intro span _
  rw [DocumentMemory.result?_of_inScope rfl]
  rfl

theorem collected_finite (h : pass.Covers m digest lookup formatter text scope)
    (hm : ∀ (start : Nat) (table : RememberedTable), m.tables[start]? = some table →
      table.published.Finite) : pass.collected.Finite := by
  rw [h.collected]
  refine finite_collectAll _ VariableSet.finite_empty fun table ht => ?_
  obtain ⟨span, -, hr⟩ := List.mem_filterMap.1 ht
  rcases DocumentMemory.result?_cases hr with hcurrent | rfl
  · exact hm span.start table (current?_eq_some hcurrent).1
  · exact published_finite _ _

end Pass.Covers

namespace Engine

theorem remember_self {engine : Engine} {document : String} {m : DocumentMemory}
    (h : engine.memory[document]? = some m) : engine.remember document m = engine := by
  have hmemory : engine.memory.insert document m = engine.memory := by
    refine ExtTreeMap.ext_getElem? fun other => ?_
    rw [ExtTreeMap.getElem?_insert]
    split
    · rename_i ho
      rw [← Std.LawfulEqOrd.compare_eq_iff_eq.1 ho, h]
    · rfl
  unfold remember
  rw [hmemory]

/-- A pass over the text that a document was recalculated with last, and whose tables are all
current, leaves the memory as it is. -/
theorem pass_settled {engine : Engine} {document text : String}
    (htext : (engine.memoryOf document).text = some (engine.digest text))
    (hcurrent : ∀ span ∈ formulaTables text,
      ((engine.memoryOf document).current? engine.digest span).isSome = true)
    (hothers : ∀ start, (∀ span ∈ formulaTables text, span.start ≠ start) →
      (engine.memoryOf document).tables[start]? = none) :
    (engine.pass document text none).memory = engine.memoryOf document ∧
      (engine.pass document text none).processed = 0 := by
  have hmemory : { engine.memoryOf document with text := some (engine.digest text) }
      = engine.memoryOf document := by
    rw [← htext]
  unfold Engine.pass
  dsimp only
  rw [hmemory]
  obtain ⟨hm, hp⟩ := Pass.foldl_visit_reuses engine.digest engine.index.lookup engine.formatter
    none (formulaTables text)
    { memory := engine.memoryOf document } hcurrent
  simp only [Option.isNone_none, if_true, hm, hp, and_true]
  have hkept : (engine.memoryOf document).tables.filter
      (fun start _ => ((formulaTables text).map Span.start).contains start)
        = (engine.memoryOf document).tables := by
    refine ExtTreeMap.ext_getElem? fun start => ?_
    rw [ExtTreeMap.getElem?_filter']
    by_cases hs : start ∈ (formulaTables text).map Span.start
    · rw [List.contains_iff_mem.2 hs]
      rcases (engine.memoryOf document).tables[start]? with _ | table <;> rfl
    · rw [hothers start fun span hm he => hs (he ▸ List.mem_map_of_mem hm)]
      rfl
  unfold DocumentMemory.keepTables
  rw [hkept]

theorem publish_memory (engine : Engine) (document : String) (pass : Pass) :
    (engine.publish document pass).2.memory[document]? = some pass.memory := by
  obtain ⟨-, -, -, hmemory⟩ := adopt_frame (engine.remember document pass.memory)
    (engine.changedBy? document pass)
  rw [publish_eq]
  dsimp only
  rw [hmemory]
  exact ExtTreeMap.getElem?_insert_self

/-- A pass that leaves the memory and the entry of its document as they are leaves the engine. -/
theorem publish_settled {engine : Engine} {document : String} {pass : Pass}
    (hmemory : engine.memory[document]? = some pass.memory)
    (hchanged : engine.changedBy? document pass = none) :
    (engine.publish document pass).1.processed = pass.processed ∧
      (engine.publish document pass).1.indexChanged = false ∧
      (engine.publish document pass).1.persisted = false ∧
      (engine.publish document pass).2 = engine := by
  rw [publish_eq, hchanged]
  exact ⟨rfl, rfl, rfl, remember_self hmemory⟩

theorem render_eq (engine : Engine) (document text : String) :
    engine.render document text =
      let after := (engine.recalculate document text none false).2
      (after.withComputedTables document text, after) :=
  rfl

/-- After a pass over a whole document, another pass over the same text takes the same tables, all
of them from memory. -/
theorem publish_again {engine settled : Engine} {document text : String}
    (hfinite : (engine.pass document text none).collected.Finite)
    (hsettled : (engine.publish document (engine.pass document text none)).2 = settled) :
    let again := settled.publish document (settled.pass document text none)
    (settled.memoryOf document).text = some (settled.digest text) ∧ again.1.processed = 0 ∧
      again.1.indexChanged = false ∧ again.1.persisted = false ∧ again.2 = settled := by
  intro again
  have hcovers := engine.pass_covers document text none
  have hagain := settled.pass_covers document text none
  obtain ⟨-, hpolicy, hindex, hmemory⟩ :=
    publish_frame engine document (engine.pass document text none)
  have hself := publish_memory engine document (engine.pass document text none)
  have hdigest := digest_publish engine document (engine.pass document text none)
  rw [hsettled] at hpolicy hindex hmemory hself hdigest
  have hkept : settled.memoryOf document = (engine.pass document text none).memory := by
    rw [hmemory, if_pos rfl]
  have htext : (settled.memoryOf document).text = some (settled.digest text) :=
    hdigest ▸ (congrArg DocumentMemory.text hkept).trans hcovers.noted
  have hcurrent : ∀ span ∈ formulaTables text,
      (settled.memoryOf document).current? settled.digest span
        = (engine.memoryOf document).result? engine.digest engine.index.lookup engine.formatter
          none span :=
    fun span hs => by rw [hdigest, hkept, hcovers.current? hs]
  -- the second pass takes what the first one has left
  obtain ⟨hpass, hprocessed⟩ := pass_settled htext
    (fun span hs => by
      rw [hcurrent span hs, DocumentMemory.result?_of_inScope rfl]
      rfl)
    fun start hstart => by
      rw [hkept]
      exact hcovers.outside start fun span hs _ => hstart span hs
  have hcollected : (settled.pass document text none).collected
      = (engine.pass document text none).collected := by
    rw [hagain.collected, hcovers.collected]
    refine congrArg (collectAll ∅) (List.filterMap_congr fun span hs => ?_)
    have hc := hcurrent span hs
    rw [DocumentMemory.result?_of_inScope rfl] at hc ⊢
    rw [hc, Option.getD_some, DocumentMemory.result?_of_inScope rfl]
  have hunchanged : settled.changedBy? document (settled.pass document text none) = none := by
    unfold changedBy? at hindex ⊢
    rw [hcovers.complete_of_whole, if_pos rfl] at hindex
    rw [hagain.complete_of_whole, if_pos rfl, hcollected, hpolicy, hindex]
    exact Index.replace?_again hfinite engine.policy engine.index document
  obtain ⟨hp, hi, hs, he⟩ := publish_settled (hpass ▸ hkept ▸ hself) hunchanged
  exact ⟨htext, hp.trans hprocessed, hi, hs, he⟩

/-- Recalculating a document again with the text it has just been recalculated with, at any cursor,
quietly or not, processes no table, tries no save and changes nothing that the engine keeps; nor
does rendering it again. -/
theorem recalculate_again {engine : Engine} (h : engine.Reachable) (document text : String) :
    let settled := (engine.recalculate document text none false).2
    (∀ cursor quiet,
      let again := settled.recalculate document text cursor quiet
      again.1.processed = 0 ∧ again.1.indexChanged = false ∧ again.1.persisted = false ∧
        again.2 = settled) ∧
    let rendered := engine.render document text
    rendered.2.render document text = rendered := by
  have hfinite := (engine.pass_covers document text none).collected_finite
    fun start table => h.finite
  simp only [render_eq, recalculate_loud engine document text none]
  generalize hsettled : (engine.publish document (engine.pass document text none)).2 = settled
  obtain ⟨htext, hprocessed, hindex, hsaved, hsame⟩ := publish_again hfinite hsettled
  refine ⟨fun cursor quiet => ?_, ?_⟩
  · rcases quiet with _ | _
    · -- a pass that is not quiet has no scope, wherever the cursor is
      rw [recalculate_loud]
      exact ⟨hprocessed, hindex, hsaved, hsame⟩
    · have hskips : settled.skips document text true = true := by
        unfold skips
        rw [htext, beq_self_eq_true]
        rfl
      rw [recalculate_of_skips hskips]
      exact ⟨rfl, rfl, rfl, rfl⟩
  · rw [recalculate_loud, hsame]

theorem recalculate_again_self_reference :
    let text := "| a | =NOTE(\"n\").a + 1 |\n| b | 1 |"
    let engine := (({} : Engine).act (.recalculate "n" "| a | 1 |\n| b | 2 |" (some 0) true)).2
    let settled := (engine.recalculate "n" text none false).2
    engine.Reachable ∧ (∀ cursor quiet,
      let again := settled.recalculate "n" text cursor quiet
      again.1.processed = 0 ∧ again.1.indexChanged = false ∧ again.1.persisted = false ∧
        again.2 = settled) ∧
      let rendered := engine.render "n" text
      rendered.2.render "n" text = rendered := by
  intro text engine settled
  have hreachable : engine.Reachable := .act (.fresh (forgotten_of_memory_empty rfl)) _
  exact ⟨hreachable, recalculate_again hreachable "n" text⟩

end Engine

end ComputedTables
