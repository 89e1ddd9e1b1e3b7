import ComputedTables.Proofs.Actions
import ComputedTables.Proofs.Passes

/-!
# Where remembered tables come from

Whatever an engine remembers of a table was computed from a table with formulas of some text it was
given, under the index of that moment and under the settings of now (`Grounded.act`): settings
that change drop everything remembered.  So all variables that remembered tables publish are finite
(`Reachable.finite`).
-/

namespace ComputedTables

variable {T : String → Prop} {I : Index → Prop} {digest : Text.Digest} {formatter : Formatter}

/-- A remembered table is that of a table with formulas in one of the texts, at the line where it is
remembered, as computed under one of the indices. -/
def RememberedTable.From (T : String → Prop) (I : Index → Prop) (digest : Text.Digest)
    (formatter : Formatter) (start : Nat) (table : RememberedTable) : Prop :=
  ∃ (text : String) (span : Span) (index : Index), T text ∧ span ∈ formulaTables text ∧
    span.start = start ∧ I index ∧ table = span.computed digest index.lookup formatter

theorem RememberedTable.From.finite {start : Nat} {table : RememberedTable}
    (h : table.From T I digest formatter start) : table.published.Finite := by
  obtain ⟨text, span, index, -, -, -, -, rfl⟩ := h
  exact published_finite _ _

/-- What is remembered after a pass was remembered before, or has been computed. -/
theorem Pass.Covers.tables {pass : Pass} {m : DocumentMemory} {lookup : Lookup} {text : String}
    {scope : Option Span} (h : pass.Covers m digest lookup formatter text scope) {start : Nat}
    {table : RememberedTable} (ht : pass.memory.tables[start]? = some table) :
    m.tables[start]? = some table ∨ ∃ span ∈ formulaTables text, span.start = start ∧
      table = span.computed digest lookup formatter := by
  by_cases hin : ∃ span ∈ formulaTables text, inScope scope span = true ∧ span.start = start
  · obtain ⟨span, hs, hscope, rfl⟩ := hin
    rw [h.inside span hs hscope] at ht
    rcases DocumentMemory.result?_cases ht with hcurrent | hcomputed
    · exact .inl (current?_eq_some hcurrent).1
    · exact .inr ⟨span, hs, rfl, hcomputed⟩
  · rw [h.outside start fun span hs hscope he => hin ⟨span, hs, hscope, he⟩] at ht
    split at ht
    · cases ht
    · exact .inl ht

namespace Engine

theorem memoryOf_recalculate {engine : Engine} {document text : String} {quiet : Bool}
    (hskips : engine.skips document text quiet = false) (cursor : Option Nat) :
    (engine.recalculate document text cursor quiet).2.memoryOf document
      = (engine.pass document text (scopeOf text cursor quiet)).memory := by
  obtain ⟨-, -, -, hmemory⟩ := engine.publish_frame document
    (engine.pass document text (scopeOf text cursor quiet))
  rw [recalculate_of_not_skips hskips, hmemory, if_pos rfl]

theorem computedLines?_recalculate {engine : Engine} {document text : String}
    {cursor : Option Nat} {quiet : Bool} (hskips : engine.skips document text quiet = false)
    {span : Span} (hs : span ∈ formulaTables text)
    (hscope : inScope (scopeOf text cursor quiet) span = true) :
    (engine.recalculate document text cursor quiet).2.computedLines? document span.start
      = some (((engine.memoryOf document).current? engine.digest span).getD
          (span.computed engine.digest engine.index.lookup engine.formatter)).lines := by
  have hcovers := engine.pass_covers document text (scopeOf text cursor quiet)
  rw [computedLines?, memoryOf_recalculate hskips, hcovers.inside span hs hscope,
    DocumentMemory.result?_of_inScope hscope, Option.map_some]

/-- All that is remembered of tables comes from the texts and the indices. -/
def Grounded (T : String → Prop) (I : Index → Prop) (engine : Engine) : Prop :=
  ∀ (document : String) (start : Nat) (table : RememberedTable),
    (engine.memoryOf document).tables[start]? = some table →
      table.From T I engine.digest engine.formatter start

variable {engine after : Engine}

theorem grounded_of_fresh (h : engine.Fresh) : engine.Grounded T I := by
  intro document start table ht
  rw [(h document).2] at ht
  simp at ht

/-- An action that brings one of the texts, and passes over documents under the indices only. -/
theorem Grounded.act (h : engine.Grounded T I) (action : Action)
    (htext : ∀ text, action.text? = some text → T text)
    (hindex : ∀ document p, engine.passOver? document action = some p → I p.engine.index) :
    (engine.act action).2.Grounded T I := by
  intro document start table ht
  rw [digest_act]
  rcases act_memoryOf engine document action with ⟨p, hp, hleads⟩ | ⟨-, hforgotten | ⟨hs, hm⟩⟩
  · have hformatter : (engine.act action).2.formatter = p.engine.formatter :=
      congrArg Settings.formatter (hleads.settings.trans hleads.start.symm)
    have hcovers := p.engine.pass_covers document p.text p.scope
    rw [hleads.memory.tables] at ht
    rcases hcovers.tables ht with hold | ⟨span, hspan, hstart, hcomputed⟩
    · have hkept : (engine.memoryOf document).tables[start]? = some table := by
        rcases hleads.tables with he | he
        · rwa [he] at hold
        · rw [he] at hold
          simp at hold
      have hfrom := h document start table hkept
      have hengine : (engine.act action).2.formatter = engine.formatter :=
        congrArg Settings.formatter hleads.settings
      rwa [hengine]
    · rw [hformatter, ← passOver?_digest hp]
      exact ⟨p.text, span, p.engine.index, htext _ (passOver?_cases hp).1, hspan, hstart,
        hindex document p hp, hcomputed⟩
  · rw [hforgotten.2] at ht
    simp at ht
  · rw [hm.tables] at ht
    have hengine : (engine.act action).2.formatter = engine.formatter :=
      congrArg Settings.formatter hs
    rw [hengine]
    exact h document start table ht

theorem Reachable.grounded (h : engine.Reachable) :
    engine.Grounded (fun _ => True) (fun _ => True) := by
  induction h with
  | fresh hfresh => exact grounded_of_fresh hfresh
  | act _ action ih => exact ih.act action (fun _ _ => trivial) fun _ _ _ => trivial

theorem Reachable.finite (h : engine.Reachable) {document : String} {start : Nat}
    {table : RememberedTable} (ht : (engine.memoryOf document).tables[start]? = some table) :
    table.published.Finite :=
  (h.grounded document start table ht).finite

end Engine

end ComputedTables
