import ComputedTables.Document.Source
import ComputedTables.Proofs.Consistency

/-!
# Engines that follow a source

Between two changes of its source, whatever a watcher does to its engine comes down to dropping
what is remembered and recalculating documents with the texts they have (`Engine.Follows`).  When
no two documents share a name, this keeps the engine consistent, keeps the entry of a document that
has that of its text (`Follows.publishes`), and gives no entry to a document that is not there
(`Follows.absent`).
-/

namespace ComputedTables

/-- The documents and texts of a run: documents with one name are the same, and the texts can be
computed one by one. -/
structure World (digest : Text.Digest) (T : String → Prop) (W : Document → Prop) : Prop where
  selfContained : SelfContained digest T
  same : ∀ a b, W a → a.same b = true → W b
  names : ∀ a b, W a → W b → a.name = b.name → a.same b = true

/-- A source has texts of the run only, and reads a document in the same way however its path is
written. -/
structure Source.Within (T : String → Prop) (source : Source) : Prop where
  text : ∀ id text, source.read id = .ok text → T text
  same : ∀ a b text, a.same b = true → source.read a = .ok text → source.read b = .ok text

namespace Engine

/-- The engine after dropping memory and recalculating documents of a source, in any order. -/
inductive Follows (W : Document → Prop) (source : Source) (engine : Engine) : Engine → Prop where
  | refl : Follows W source engine engine
  | recalculate {after : Engine} (id : Document) (text : String) (quiet : Bool) :
      Follows W source engine after → W id → source.read id = .ok text →
        Follows W source engine (after.recalculate id.name text none quiet).2
  | invalidate {after : Engine} (document : String) :
      Follows W source engine after → Follows W source engine (after.invalidate document)

/-- The entry of a document is what its text publishes. -/
def Publishes (engine : Engine) (document text : String) : Prop :=
  entriesAgree engine.index[document]?
    (publishedVariables Lookup.empty ({} : Settings).formatter text).entry = true

variable {digest : Text.Digest} {T : String → Prop} {W : Document → Prop} {source : Source}
  {engine middle after : Engine}

theorem Follows.trans (h : Follows W source engine middle) (h' : Follows W source middle after) :
    Follows W source engine after := by
  induction h' with
  | refl => exact h
  | recalculate id text quiet _ hid hr ih => exact ih.recalculate id text quiet hid hr
  | invalidate document _ ih => exact ih.invalidate document

theorem Publishes.of_index_eq {document text : String} (h : engine.Publishes document text)
    (hi : after.index[document]? = engine.index[document]?) : after.Publishes document text := by
  unfold Publishes at h ⊢
  rwa [hi]

theorem Reflects.publishes {document text : String} (h : engine.Reflects document text) :
    engine.Publishes document text := by
  unfold Publishes
  rw [publishedVariables_formatter Lookup.empty _ engine.formatter]
  exact h.entry

theorem Follows.consistent (hw : World digest T W) (hs : source.Within T)
    (h : Follows W source engine after) (hc : engine.Consistent digest T) :
    after.Consistent digest T := by
  induction h with
  | refl => exact hc
  | recalculate id text quiet _ _ hr ih =>
    exact (ih.recalculate hw.selfContained (hs.text id text hr) id.name quiet).1
  | invalidate document _ ih => exact ih.invalidate document

theorem Consistent.publishes (hw : World digest T W) (hc : engine.Consistent digest T)
    {text : String} (ht : T text) (document : String) (quiet : Bool) :
    (engine.recalculate document text none quiet).2.Publishes document text :=
  (hc.recalculate hw.selfContained ht document quiet).2.1.publishes

/-- The entry of a document stays that of its text. -/
theorem Follows.publishes (hw : World digest T W) (hs : source.Within T)
    (h : Follows W source engine after) (hc : engine.Consistent digest T) {id : Document}
    {text : String}
    (hid : W id) (hr : source.read id = .ok text) (hp : engine.Publishes id.name text) :
    after.Publishes id.name text := by
  induction h with
  | refl => exact hp
  | @recalculate middle id' text' quiet hm hid' hr' ih =>
    have hm := hm.consistent hw hs hc
    have ht' := hs.text id' text' hr'
    by_cases hname : id.name = id'.name
    · -- the same document, so it is recalculated with the same text
      have htext : text' = text := by
        have := hs.same id id' text (hw.names id id' hid hid' hname) hr
        rw [hr', Except.ok.injEq] at this
        exact this
      rw [hname, ← htext]
      exact hm.publishes hw ht' id'.name quiet
    · exact ih.of_index_eq ((hm.recalculate hw.selfContained ht' id'.name quiet).2.2 _ hname)
  | invalidate document _ ih => exact ih.of_index_eq rfl

/-- A document that cannot be read gets no entry. -/
theorem Follows.absent (hw : World digest T W) (hs : source.Within T)
    (h : Follows W source engine after) (hc : engine.Consistent digest T) {id : Document}
    (hid : W id) (hr : ∀ text, source.read id ≠ .ok text) (hi : engine.index[id.name]? = none) :
    after.index[id.name]? = none := by
  induction h with
  | refl => exact hi
  | @recalculate middle id' text' quiet hm hid' hr' ih =>
    have hm := hm.consistent hw hs hc
    have hname : id.name ≠ id'.name := by
      intro hname
      have hsame := hw.names id' id hid' hid hname.symm
      exact hr text' (hs.same id' id text' hsame hr')
    rw [(hm.recalculate hw.selfContained (hs.text id' text' hr') id'.name quiet).2.2 _ hname, ih]
  | invalidate document _ ih => exact ih

end Engine

end ComputedTables
