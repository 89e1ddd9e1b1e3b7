import ComputedTables.Proofs.FullPass

/-!
# What a pass makes of each table

A pass takes a remembered table if it is current; in its scope it computes the table otherwise
(`DocumentMemory.result?`).  Computing one table does not make another one current, so what a pass
collects, whether it is complete and what it remembers of each table are read off the memory that
it starts with (`Pass.Covers`, `pass_covers`).  What it takes is what is current after it.
-/

namespace ComputedTables

open Std (ExtTreeMap)

variable {digest : Text.Digest} {lookup : Lookup} {formatter : Formatter} {scope : Option Span}

namespace DocumentMemory

/-- What a pass takes for a table, if it takes anything. -/
def result? (m : DocumentMemory) (digest : Text.Digest) (lookup : Lookup) (formatter : Formatter)
    (scope : Option Span) (span : Span) : Option RememberedTable :=
  if inScope scope span then
    some ((m.current? digest span).getD (span.computed digest lookup formatter))
  else m.current? digest span

theorem current?_congr {m m' : DocumentMemory} {span : Span}
    (h : m.tables[span.start]? = m'.tables[span.start]?) :
    m.current? digest span = m'.current? digest span := by
  unfold current?
  rw [h]

theorem result?_congr {m m' : DocumentMemory} {span : Span}
    (h : m.tables[span.start]? = m'.tables[span.start]?) :
    m.result? digest lookup formatter scope span
      = m'.result? digest lookup formatter scope span := by
  unfold result?
  rw [current?_congr h]

theorem result?_of_inScope {m : DocumentMemory} {span : Span} (h : inScope scope span = true) :
    m.result? digest lookup formatter scope span
      = some ((m.current? digest span).getD (span.computed digest lookup formatter)) :=
  if_pos h

theorem result?_of_current {m : DocumentMemory} {span : Span} {table : RememberedTable}
    (h : m.current? digest span = some table) :
    m.result? digest lookup formatter scope span = some table := by
  unfold result?
  rw [h]
  exact ite_self _

theorem result?_cases {m : DocumentMemory} {span : Span} {table : RememberedTable}
    (h : m.result? digest lookup formatter scope span = some table) :
    m.current? digest span = some table ∨ table = span.computed digest lookup formatter := by
  unfold result? at h
  split at h
  · rcases hc : m.current? digest span with _ | current
    · rw [hc] at h
      exact .inr (Option.some.inj h).symm
    · rw [hc] at h
      exact .inl h
  · exact .inl h

/-- What a pass takes for a table was computed from lines with the digest of the table. -/
theorem result?_source {m : DocumentMemory} {span : Span} {table : RememberedTable}
    (h : m.result? digest lookup formatter scope span = some table) :
    table.source = span.digest digest := by
  rcases result?_cases h with hcurrent | rfl
  · exact (current?_eq_some hcurrent).2
  · rfl

theorem current?_of_result? {m m' : DocumentMemory} {span : Span} {table : RememberedTable}
    (h : m.result? digest lookup formatter scope span = some table)
    (h' : m'.tables[span.start]? = some table) : m'.current? digest span = some table := by
  unfold current?
  rw [h', Option.filter_some, result?_source h, beq_self_eq_true, if_pos rfl]

end DocumentMemory

/-- Adds the variables of tables, from the first to the last. -/
def collectAll (set : VariableSet) (tables : List RememberedTable) : VariableSet :=
  tables.foldl (fun set table => set ∪ table.published) set

/-! ### One table -/

theorem Pass.visit_result (pass : Pass) (digest : Text.Digest) (lookup : Lookup)
    (formatter : Formatter) (scope : Option Span) (span : Span) :
    let visited := pass.visit digest lookup formatter scope span
    let result := pass.memory.result? digest lookup formatter scope span
    visited.collected = collectAll pass.collected result.toList ∧
      visited.complete = (pass.complete && result.isSome) ∧
      visited.memory.text = pass.memory.text ∧
      ∀ start, visited.memory.tables[start]?
        = if inScope scope span = true ∧ start = span.start then result
          else pass.memory.tables[start]? := by
  unfold Pass.visit DocumentMemory.result?
  rcases hin : inScope scope span with _ | _ <;>
    rcases hc : pass.memory.current? digest span with _ | table
  · exact ⟨rfl, (Bool.and_false _).symm, rfl, fun start => (if_neg fun h => nomatch h.1).symm⟩
  · exact ⟨rfl, (Bool.and_true _).symm, rfl, fun start => (if_neg fun h => nomatch h.1).symm⟩
  · obtain ⟨-, htext, htables⟩ := pass.memory.compute_spec digest lookup formatter span
    refine ⟨rfl, (Bool.and_true _).symm, htext, fun start => ?_⟩
    show (pass.memory.compute digest lookup formatter span).2.tables[start]? = _
    rw [htables, ExtTreeMap.getElem?_insert]
    simp only [Std.LawfulEqOrd.compare_eq_iff_eq, true_and, eq_comm (a := start), ↓reduceIte,
      Option.getD_none]
  · refine ⟨rfl, (Bool.and_true _).symm, rfl, fun start => ?_⟩
    show pass.memory.tables[start]? = _
    by_cases hs : start = span.start
    · rw [if_pos ⟨rfl, hs⟩, hs]
      exact (current?_eq_some hc).1
    · rw [if_neg fun h => hs h.2]

/-! ### All tables -/

/-- What a pass over tables makes of a memory: the results it collects are those of the memory it
starts with, and it remembers those of the tables in its scope. -/
structure Pass.Sweeps (pass : Pass) (digest : Text.Digest) (lookup : Lookup)
    (formatter : Formatter) (scope : Option Span) (spans : List Span) (after : Pass) : Prop where
  collected : after.collected = collectAll pass.collected
    (spans.filterMap (pass.memory.result? digest lookup formatter scope))
  complete : after.complete = (pass.complete &&
    spans.all fun span => (pass.memory.result? digest lookup formatter scope span).isSome)
  text : after.memory.text = pass.memory.text
  inside : ∀ span ∈ spans, inScope scope span = true →
    after.memory.tables[span.start]? = pass.memory.result? digest lookup formatter scope span
  outside : ∀ start, (∀ span ∈ spans, inScope scope span = true → span.start ≠ start) →
    after.memory.tables[start]? = pass.memory.tables[start]?

theorem Pass.foldl_visit_sweeps (digest : Text.Digest) (lookup : Lookup) (formatter : Formatter)
    (scope : Option Span) : ∀ (spans : List Span) (pass : Pass), (spans.map Span.start).Nodup →
      pass.Sweeps digest lookup formatter scope spans
        (spans.foldl (Pass.visit digest lookup formatter scope) pass)
  | [], pass, _ =>
    ⟨rfl, (Bool.and_true _).symm, rfl, fun _ hs => (List.not_mem_nil hs).elim, fun _ _ => rfl⟩
  | span :: spans, pass, hd => by
    rw [List.map_cons, List.nodup_cons] at hd
    obtain ⟨hcollected, hcomplete, htext, htables⟩ :=
      pass.visit_result digest lookup formatter scope span
    have ih := Pass.foldl_visit_sweeps digest lookup formatter scope spans
      (pass.visit digest lookup formatter scope span) hd.2
    -- visiting the first table makes no difference to what the pass takes for the others
    have hresult : ∀ s ∈ spans,
        (pass.visit digest lookup formatter scope span).memory.result? digest lookup formatter
            scope s
          = pass.memory.result? digest lookup formatter scope s := by
      intro s hs
      refine DocumentMemory.result?_congr ?_
      rw [htables, if_neg]
      exact fun he => hd.1 (he.2 ▸ List.mem_map_of_mem hs)
    rw [List.foldl_cons]
    constructor
    · rw [ih.collected, List.filterMap_congr hresult, hcollected, List.filterMap_cons]
      rcases pass.memory.result? digest lookup formatter scope span with _ | table <;> rfl
    · rw [ih.complete, hcomplete, List.all_cons, Bool.and_assoc]
      congr 2
      rw [Bool.eq_iff_iff, List.all_eq_true, List.all_eq_true]
      exact forall₂_congr fun s hs => by rw [hresult s hs]
    · rw [ih.text, htext]
    · intro s hs hin
      rcases List.mem_cons.1 hs with rfl | hs
      · have hfirst : ∀ s' ∈ spans, inScope scope s' = true → s'.start ≠ s.start :=
          fun s' hs' _ he => hd.1 (he ▸ List.mem_map_of_mem hs')
        rw [ih.outside _ hfirst, htables, if_pos ⟨hin, rfl⟩]
      · rw [ih.inside s hs hin, hresult s hs]
    · intro start hstart
      rw [ih.outside start fun s hs => hstart s (List.mem_cons_of_mem _ hs), htables, if_neg]
      exact fun he => hstart span List.mem_cons_self he.1 he.2.symm

/-! ### A pass over a text -/

/-- What a pass over a text makes of the memory of its document. -/
structure Pass.Covers (pass : Pass) (m : DocumentMemory) (digest : Text.Digest) (lookup : Lookup)
    (formatter : Formatter) (text : String) (scope : Option Span) : Prop where
  collected : pass.collected = collectAll ∅
    ((formulaTables text).filterMap (m.result? digest lookup formatter scope))
  complete : pass.complete
    = (formulaTables text).all fun span => (m.result? digest lookup formatter scope span).isSome
  noted : pass.memory.text = some (digest text)
  inside : ∀ span ∈ formulaTables text, inScope scope span = true →
    pass.memory.tables[span.start]? = m.result? digest lookup formatter scope span
  outside : ∀ start, (∀ span ∈ formulaTables text, inScope scope span = true →
    span.start ≠ start) →
      pass.memory.tables[start]? = if scope.isNone then none else m.tables[start]?

/-- The tables that a pass takes are those that are current after it. -/
theorem Pass.Covers.current? {pass : Pass} {m : DocumentMemory} {text : String}
    (h : pass.Covers m digest lookup formatter text scope) {span : Span}
    (hs : span ∈ formulaTables text) :
    pass.memory.current? digest span = m.result? digest lookup formatter scope span := by
  by_cases hin : inScope scope span = true
  · have hresult : m.result? digest lookup formatter scope span = _ :=
      DocumentMemory.result?_of_inScope hin
    have hinside := h.inside span hs hin
    rw [hresult] at hinside ⊢
    exact DocumentMemory.current?_of_result? hresult hinside
  · have hstart : ∀ s ∈ formulaTables text, inScope scope s = true → s.start ≠ span.start := by
      intro s hs' hin' he
      rw [List.inj_on_of_nodup_map (formulaTables_starts_nodup text) hs' hs he] at hin'
      exact hin hin'
    have houtside := h.outside span.start hstart
    rcases scope with _ | scope
    · exact absurd rfl hin
    · rw [DocumentMemory.current?_congr houtside]
      exact (if_neg hin).symm

theorem Engine.pass_covers (engine : Engine) (document text : String) (scope : Option Span) :
    (engine.pass document text scope).Covers (engine.memoryOf document) engine.digest
      engine.index.lookup engine.formatter text scope := by
  have hsweeps := Pass.foldl_visit_sweeps engine.digest engine.index.lookup engine.formatter scope
    (formulaTables text)
    { memory := { engine.memoryOf document with text := some (engine.digest text) } }
    (formulaTables_starts_nodup text)
  unfold Engine.pass
  dsimp only
  generalize (formulaTables text).foldl
    (Pass.visit engine.digest engine.index.lookup engine.formatter scope)
    { memory := { engine.memoryOf document with text := some (engine.digest text) } } = swept
    at hsweeps
  -- a table that starts where none in the scope does is dropped by a pass without a scope
  rcases scope with _ | span
  · refine ⟨hsweeps.collected, hsweeps.complete, hsweeps.text, fun s hs hin => ?_,
      fun start hstart => ?_⟩
    · simp only [Option.isNone_none, if_true, DocumentMemory.keepTables]
      rw [ExtTreeMap.getElem?_filter', hsweeps.inside s hs hin]
      simp only [List.contains_iff_mem.2 (List.mem_map_of_mem (f := Span.start) hs)]
      show Option.filter _ ((engine.memoryOf document).result? _ _ _ none s) = _
      rcases (engine.memoryOf document).result? _ _ _ none s with _ | table <;> rfl
    · simp only [Option.isNone_none, if_true, DocumentMemory.keepTables]
      rw [ExtTreeMap.getElem?_filter']
      have hnot : ((formulaTables text).map Span.start).contains start = false := by
        refine Bool.eq_false_iff.2 fun hc => ?_
        obtain ⟨s, hs, he⟩ := List.mem_map.1 (List.contains_iff_mem.1 hc)
        exact hstart s hs rfl he
      rw [hnot]
      rcases swept.memory.tables[start]? with _ | table <;> rfl
  · exact ⟨hsweeps.collected, hsweeps.complete, hsweeps.text, hsweeps.inside, hsweeps.outside⟩

end ComputedTables
