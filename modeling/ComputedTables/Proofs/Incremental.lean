import ComputedTables.Proofs.Consistency

/-!
# Incremental recalculation

However the operations of an engine follow each other, recalculating a document gives what computing
it from scratch would give: whenever an operation is about a document and its text, the entry and
the computed tables of the document are afterwards those of that text, under the settings of that
moment (`performAll_from_scratch`).  Neither a quiet pass that finds the text unchanged nor a table
that is reused makes a difference.
-/

namespace ComputedTables

inductive Operation where
  | recalculate (document text : String) (quiet : Bool)
  | render (document text : String)
  | rename (old new text : String)
  | forget (document : String)
  | invalidate (document : String)
  | withSettings (settings : Settings)
  deriving DecidableEq, Repr

/-- The document that an operation brings up to a text, and the text. -/
def Operation.target? : Operation → Option (String × String)
  | .recalculate document text _ => some (document, text)
  | .render document text => some (document, text)
  | .rename _ new text => some (new, text)
  | _ => none

namespace Engine

def perform (engine : Engine) : Operation → Engine
  | .recalculate document text quiet => (engine.recalculate document text none quiet).2
  | .render document text => (engine.render document text).2
  | .rename old new text => (engine.rename old new text).2
  | .forget document => (engine.forget document).2
  | .invalidate document => engine.invalidate document
  | .withSettings settings => engine.withSettings settings

def performAll (engine : Engine) (operations : List Operation) : Engine :=
  operations.foldl perform engine

variable {digest : Text.Digest} {T : String → Prop} {engine : Engine}

/-- One operation keeps an engine consistent and brings its target up to date. -/
theorem Consistent.perform (hT : SelfContained digest T) (h : engine.Consistent digest T)
    (operation : Operation) (htext : ∀ target, operation.target? = some target → T target.2) :
    (engine.perform operation).Consistent digest T ∧ ∀ document text,
      operation.target? = some (document, text) →
        (engine.perform operation).Reflects document text := by
  match operation with
  | .recalculate d t quiet =>
    obtain ⟨hc, hr, -⟩ := h.recalculate hT (htext (d, t) rfl) d quiet
    refine ⟨hc, fun document text he => ?_⟩
    cases he
    exact hr
  | .render d t =>
    obtain ⟨hc, hr, -⟩ := h.recalculate hT (htext (d, t) rfl) d false
    refine ⟨hc, fun document text he => ?_⟩
    cases he
    exact hr
  | .rename old new t =>
    obtain ⟨hc, hr, -⟩ := h.rename hT (htext (new, t) rfl) old new
    refine ⟨hc, fun document text he => ?_⟩
    cases he
    exact hr
  | .forget d => exact ⟨(h.forget d).1, fun _ _ he => by cases he⟩
  | .invalidate d => exact ⟨h.invalidate d, fun _ _ he => by cases he⟩
  | .withSettings settings => exact ⟨h.withSettings settings, fun _ _ he => by cases he⟩

theorem Consistent.performAll (hT : SelfContained digest T) : ∀ (operations : List Operation)
    {engine : Engine}, engine.Consistent digest T →
      (∀ target ∈ operations.filterMap Operation.target?, T target.2) →
        (engine.performAll operations).Consistent digest T
  | [], _, h, _ => h
  | operation :: operations, engine, h, ht => by
    have hfirst := (h.perform hT operation fun target he =>
      ht target (List.mem_filterMap.2 ⟨operation, List.mem_cons_self, he⟩)).1
    refine Consistent.performAll hT operations hfirst fun target hm => ht target ?_
    obtain ⟨o, ho, he⟩ := List.mem_filterMap.1 hm
    exact List.mem_filterMap.2 ⟨o, List.mem_cons_of_mem _ ho, he⟩

theorem Reflects.computedLines? {document text : String} (h : engine.Reflects document text)
    {span : Span} (hs : span ∈ formulaTables text) : engine.computedLines? document span.start
      = some (computeTable Lookup.empty engine.formatter span.lines).lines := by
  unfold Engine.computedLines?
  rw [h.tables, getElem?_rememberedTables hs]
  rfl

theorem Reflects.computedLines?_isSome {document text : String} (h : engine.Reflects document text)
    (start : Nat) : (engine.computedLines? document start).isSome = true ↔
      ∃ span ∈ formulaTables text, span.start = start := by
  constructor
  · intro hsome
    obtain ⟨lines, hl⟩ := Option.isSome_iff_exists.1 hsome
    unfold Engine.computedLines? at hl
    rw [h.tables] at hl
    obtain ⟨table, ht, -⟩ := Option.map_eq_some_iff.1 hl
    obtain ⟨span, hs, he, -⟩ := rememberedTables_eq_some ht
    exact ⟨span, hs, he⟩
  · rintro ⟨span, hs, rfl⟩
    rw [h.computedLines? hs]
    rfl

/-- Recalculating incrementally is computing from scratch. -/
theorem performAll_from_scratch {start : Engine} (hpolicy : start.policy = .clear)
    (hforgotten : ∀ document, (start.memoryOf document).text = none ∧
      (start.memoryOf document).tables = ∅)
    (operations : List Operation) (last : Operation)
    (hT : SelfContained start.digest fun text => ∃ document,
      (document, text) ∈ (operations ++ [last]).filterMap Operation.target?)
    {document text : String} (hlast : last.target? = some (document, text)) (lookup : Lookup) :
    let engine := start.performAll (operations ++ [last])
    entriesAgree engine.index[document]?
        (publishedVariables lookup engine.formatter text).entry = true ∧
      (∀ line, (engine.computedLines? document line).isSome = true ↔
        ∃ span ∈ formulaTables text, span.start = line) ∧
      ∀ span ∈ formulaTables text, engine.computedLines? document span.start
        = some (computeTable lookup engine.formatter span.lines).lines := by
  intro engine
  have htext : ∃ document,
      (document, text) ∈ (operations ++ [last]).filterMap Operation.target? :=
    ⟨document, List.mem_filterMap.2 ⟨last, List.mem_append_right _ List.mem_cons_self, hlast⟩⟩
  have hbefore := (consistent_of_forgotten rfl hpolicy hforgotten).performAll hT operations
    fun target hm => ⟨target.1, by
      rw [List.filterMap_append]
      exact List.mem_append_left _ hm⟩
  have hafter : engine = (start.performAll operations).perform last := by
    show start.performAll (operations ++ [last]) = _
    unfold performAll
    rw [List.foldl_append, List.foldl_cons, List.foldl_nil]
  have hreflects : engine.Reflects document text := by
    rw [hafter]
    refine (hbefore.perform hT last fun target he => ?_).2 document text hlast
    exact ⟨target.1, List.mem_filterMap.2 ⟨last, List.mem_append_right _ List.mem_cons_self, he⟩⟩
  have hagree := hT.agreeOn htext lookup Lookup.empty
  refine ⟨?_, hreflects.computedLines?_isSome, fun span hs => ?_⟩
  · rw [publishedVariables_congr engine.formatter hagree]
    exact hreflects.entry
  · rw [hreflects.computedLines? hs, computeTable_congr engine.formatter
      (hagree.mono fun r hr => mem_textReferences hs hr)]

theorem performAll_edited_table :
    let before := "| a | 1 |\n| b | =SUM(col) |"
    let text := "| a | 2 |\n| b | =SUM(col) |"
    let operations := [Operation.recalculate "n" before false, .withSettings { precision := 3 },
      .rename "m" "n" text]
    let last := Operation.recalculate "n" text true
    let start : Engine := { digest := Text.rolling }
    let engine := start.performAll (operations ++ [last])
    SelfContained Text.rolling (fun text => ∃ document,
      (document, text) ∈ (operations ++ [last]).filterMap Operation.target?) ∧
    entriesAgree engine.index["n"]?
        (publishedVariables Lookup.empty engine.formatter text).entry = true ∧
      (∀ line, (engine.computedLines? "n" line).isSome = true ↔
        ∃ span ∈ formulaTables text, span.start = line) ∧
      ∀ span ∈ formulaTables text, engine.computedLines? "n" span.start
        = some (computeTable Lookup.empty engine.formatter span.lines).lines := by
  intro before text operations last start engine
  have hmem : ∀ t, (∃ document,
      (document, t) ∈ (operations ++ [last]).filterMap Operation.target?) → t ∈ [before, text] := by
    rintro t ⟨document, hm⟩
    have htargets : (operations ++ [last]).filterMap Operation.target?
        = [("n", before), ("n", text), ("n", text)] := rfl
    rw [htargets] at hm
    simp only [List.mem_cons, Prod.mk.injEq, List.not_mem_nil, or_false] at hm ⊢
    rcases hm with ⟨-, h⟩ | ⟨-, h⟩ | ⟨-, h⟩
    · exact .inl h
    · exact .inr h
    · exact .inr h
  have hT : SelfContained Text.rolling _ :=
    .of_list hmem (by decide +kernel) (by decide +kernel) (by decide +kernel)
  exact ⟨hT, performAll_from_scratch rfl (forgotten_of_memory_empty rfl) operations last hT rfl
    Lookup.empty⟩

end Engine

end ComputedTables
