import ComputedTables.Proofs.FullPass

/-!
# Engines whose memory can be trusted

As long as no text refers to another document and no two texts or tables share a digest
(`SelfContained`), an engine stays consistent: what it remembers about a document is what computing
some text gives, and the entry of the document is what that text publishes (`Consistent`).  Each
operation keeps this, says what becomes of the entries it is about, and leaves all others.  So what
the engine takes from memory is what it would have computed, however it takes digests.
-/

namespace ComputedTables

open Std (ExtTreeMap)

/-- None of the texts refers to another document, and different texts and different tables in them
have different digests. -/
structure SelfContained (digest : Text.Digest) (T : String → Prop) : Prop where
  noReferences : ∀ text, T text → textReferences text = []
  text_injective : ∀ text, T text → ∀ text', T text' →
    digest text = digest text' → text = text'
  table_injective : ∀ text, T text → ∀ text', T text' →
    ∀ span ∈ tables text, ∀ span' ∈ tables text', span.digest digest = span'.digest digest →
      Text.unlines span.lines = Text.unlines span'.lines

variable {digest : Text.Digest} {T : String → Prop} {lookup other : Lookup}
  {formatter : Formatter}

theorem SelfContained.of_list {texts : List String} (hmem : ∀ text, T text → text ∈ texts)
    (hreferences : ∀ text ∈ texts, textReferences text = [])
    (htexts : ∀ text ∈ texts, ∀ text' ∈ texts, digest text = digest text' → text = text')
    (htables : ∀ text ∈ texts, ∀ text' ∈ texts, ∀ span ∈ tables text, ∀ span' ∈ tables text',
      span.digest digest = span'.digest digest →
        Text.unlines span.lines = Text.unlines span'.lines) :
    SelfContained digest T :=
  ⟨fun text ht => hreferences text (hmem text ht),
    fun text ht text' ht' => htexts text (hmem text ht) text' (hmem text' ht'),
    fun text ht text' ht' => htables text (hmem text ht) text' (hmem text' ht')⟩

theorem SelfContained.agreeOn (hT : SelfContained digest T) {text : String} (ht : T text)
    (lookup other : Lookup) : Lookup.AgreeOn (textReferences text) lookup other := by
  intro r hr
  rw [hT.noReferences text ht] at hr
  cases hr

/-- What is remembered about a document is nothing, or what a whole pass over a text leaves. -/
def DocumentMemory.Consistent (digest : Text.Digest) (T : String → Prop) (formatter : Formatter)
    (m : DocumentMemory) : Prop :=
  (m.text = none ∧ m.tables = ∅) ∨ ∃ text, T text ∧ m.text = some (digest text) ∧
    m.tables = rememberedTables digest Lookup.empty formatter text

theorem DocumentMemory.Consistent.trusts (hT : SelfContained digest T) {m : DocumentMemory}
    (h : m.Consistent digest T formatter) {text : String} (ht : T text) (lookup : Lookup) :
    m.Trusts digest lookup formatter (formulaTables text) := by
  rcases h with ⟨-, h⟩ | ⟨old, hold, -, h⟩
  · exact DocumentMemory.trusts_of_tables_empty h digest lookup formatter _
  · intro span hs table hc
    obtain ⟨hget, hsource⟩ := current?_eq_some hc
    rw [h] at hget
    obtain ⟨span', hs', -, rfl⟩ := rememberedTables_eq_some hget
    have hs := List.mem_of_mem_filter hs
    have hs' := List.mem_of_mem_filter hs'
    have hlines : span'.lines = span.lines := lines_eq_of_unlines_eq hs' hs
      (hT.table_injective old hold text ht span' hs' span hs hsource)
    rw [Span.computed_congr hs (hT.agreeOn ht lookup Lookup.empty)]
    unfold Span.computed Span.digest
    rw [hlines]

namespace Engine

/-- What is remembered about every document is that of some text, and its entry is too. -/
structure Consistent (digest : Text.Digest) (T : String → Prop) (engine : Engine) : Prop where
  digests : engine.digest = digest
  policy : engine.policy = .clear
  memory : ∀ document, (engine.memoryOf document).Consistent digest T engine.formatter
  entry : ∀ document text, T text →
    (engine.memoryOf document).text = some (digest text) →
      entriesAgree engine.index[document]?
        (publishedVariables Lookup.empty engine.formatter text).entry = true

/-- The entry of a document and its remembered tables are those of a text. -/
structure Reflects (engine : Engine) (document text : String) : Prop where
  entry : entriesAgree engine.index[document]?
    (publishedVariables Lookup.empty engine.formatter text).entry = true
  tables : (engine.memoryOf document).tables
    = rememberedTables engine.digest Lookup.empty engine.formatter text

/-- An engine is consistent but for the entry of a document. -/
structure ConsistentBut (digest : Text.Digest) (T : String → Prop) (document : String)
    (engine : Engine) : Prop where
  digests : engine.digest = digest
  policy : engine.policy = .clear
  memory : ∀ other, (engine.memoryOf other).Consistent digest T engine.formatter
  entry : ∀ other, other ≠ document → ∀ text, T text →
    (engine.memoryOf other).text = some (digest text) →
      entriesAgree engine.index[other]?
        (publishedVariables Lookup.empty engine.formatter text).entry = true

theorem Consistent.but {engine : Engine} (h : engine.Consistent digest T) (document : String) :
    engine.ConsistentBut digest T document :=
  ⟨h.digests, h.policy, h.memory, fun other _ => h.entry other⟩

theorem consistent_of_forgotten {engine : Engine} (hdigests : engine.digest = digest)
    (hpolicy : engine.policy = .clear) (h : ∀ document, (engine.memoryOf document).text = none ∧
      (engine.memoryOf document).tables = ∅) : engine.Consistent digest T := by
  refine ⟨hdigests, hpolicy, fun document => .inl (h document), fun document text _ ht => ?_⟩
  rw [(h document).1] at ht
  cases ht

variable {engine after : Engine} {document text : String}

/-! ### Recalculating -/

theorem Passed.reflects (hT : SelfContained digest T) (ht : T text)
    (h : engine.Passed after document text) : after.Reflects document text := by
  have hformatter : after.formatter = engine.formatter := congrArg Settings.formatter h.settings
  have hagree := hT.agreeOn ht engine.index.lookup Lookup.empty
  constructor
  · rw [h.index, hformatter, ← publishedVariables_congr engine.formatter hagree]
    exact Index.publish_self (publishedVariables_finite _ _ _)
  · rw [h.tables, h.digest, hformatter, rememberedTables_congr hagree]

/-- A whole pass over a document makes up for its entry. -/
theorem Passed.consistent (hT : SelfContained digest T) (ht : T text)
    (h : engine.Passed after document text) (hbut : engine.ConsistentBut digest T document) :
    after.Consistent digest T := by
  have hformatter : after.formatter = engine.formatter := congrArg Settings.formatter h.settings
  have hreflects := h.reflects hT ht
  have hdigests : after.digest = digest := h.digest.trans hbut.digests
  have hnoted := h.noted
  have htables := hreflects.tables
  rw [hbut.digests] at hnoted
  rw [hdigests] at htables
  refine ⟨hdigests, h.policy.trans hbut.policy, fun other => ?_, fun other text' ht' hd => ?_⟩
  · by_cases ho : other = document
    · subst ho
      exact .inr ⟨text, ht, hnoted, htables⟩
    · rw [h.memory other ho, hformatter]
      exact hbut.memory other
  · by_cases ho : other = document
    · subst ho
      rw [hnoted, Option.some.injEq] at hd
      rw [← hT.text_injective text ht text' ht' hd]
      exact hreflects.entry
    · rw [h.memory other ho] at hd
      rw [h.index, Index.publish_other ho, hformatter]
      exact hbut.entry other ho text' ht' hd

/-- Recalculating a document, quietly or not, brings its entry and its tables up to its text. -/
theorem Consistent.recalculate (hT : SelfContained digest T) (h : engine.Consistent digest T)
    (ht : T text) (document : String) (quiet : Bool) :
    let after := (engine.recalculate document text none quiet).2
    after.Consistent digest T ∧ after.Reflects document text ∧
      ∀ other, other ≠ document → after.index[other]? = engine.index[other]? := by
  intro after
  have htrusts := (h.memory document).trusts hT ht engine.index.lookup
  rw [← h.digests] at htrusts
  rcases recalculate_whole h.policy htrusts quiet with ⟨-, hd, hafter⟩ | hpassed
  · have hafter : after = engine := hafter
    rw [h.digests] at hd
    rw [hafter]
    refine ⟨h, ⟨h.entry document text ht hd, ?_⟩, fun _ _ => rfl⟩
    rw [h.digests]
    rcases h.memory document with ⟨hnone, -⟩ | ⟨old, hold, hd', htables⟩
    · rw [hnone] at hd
      cases hd
    · rw [hd, Option.some.injEq] at hd'
      rw [htables, hT.text_injective text ht old hold hd']
  · refine ⟨hpassed.consistent hT ht (h.but document), hpassed.reflects hT ht, fun other ho => ?_⟩
    rw [hpassed.index, Index.publish_other ho]

/-! ### Other operations -/

/-- Dropping what is remembered about some documents, and changing at most their entries, keeps an
engine consistent. -/
theorem Consistent.mono (h : engine.Consistent digest T) (hdigest : after.digest = engine.digest)
    (hpolicy : after.policy = engine.policy) (hdocument : ∀ document,
      ((after.memoryOf document).text = none ∧ (after.memoryOf document).tables = ∅) ∨
      (after.formatter = engine.formatter ∧
        (after.memoryOf document).text = (engine.memoryOf document).text ∧
        (after.memoryOf document).tables = (engine.memoryOf document).tables ∧
        after.index[document]? = engine.index[document]?)) : after.Consistent digest T := by
  refine ⟨hdigest.trans h.digests, hpolicy.trans h.policy, fun document => ?_,
    fun document text ht hd => ?_⟩
  · rcases hdocument document with hnone | ⟨hf, htext, htables, -⟩
    · exact .inl hnone
    · unfold DocumentMemory.Consistent
      rw [htext, htables, hf]
      exact h.memory document
  · rcases hdocument document with ⟨hnone, -⟩ | ⟨hf, htext, -, hindex⟩
    · rw [hnone] at hd
      cases hd
    · rw [htext] at hd
      rw [hindex, hf]
      exact h.entry document text ht hd

theorem Consistent.invalidate (h : engine.Consistent digest T) (document : String) :
    (engine.invalidate document).Consistent digest T := by
  refine h.mono rfl rfl fun other => ?_
  by_cases ho : other = document
  · subst ho
    rw [memoryOf_invalidate_self]
    exact .inl ⟨rfl, rfl⟩
  · rw [memoryOf_invalidate_other engine ho]
    exact .inr ⟨rfl, rfl, rfl, rfl⟩

theorem Consistent.withSettings (h : engine.Consistent digest T) (settings : Settings) :
    (engine.withSettings settings).Consistent digest T := by
  refine h.mono rfl rfl fun document => .inl ?_
  unfold memoryOf Engine.withSettings
  rw [ExtTreeMap.getD_eq_getD_getElem?, ExtTreeMap.getElem?_map]
  rcases engine.memory[document]? with _ | m <;> exact ⟨rfl, rfl⟩

theorem setIndex_frame (engine : Engine) (changed : Option Index) :
    (engine.setIndex changed).2.index = changed.getD engine.index ∧
      (engine.setIndex changed).2.settings = engine.settings ∧
      (engine.setIndex changed).2.policy = engine.policy ∧
      (engine.setIndex changed).2.memory = engine.memory := by
  rcases changed with _ | index <;> exact ⟨rfl, rfl, rfl, rfl⟩

theorem digest_setIndex (engine : Engine) (changed : Option Index) :
    (engine.setIndex changed).2.digest = engine.digest := by
  rcases changed with _ | index <;> rfl

theorem getElem?_remove? (index : Index) (document other : String) :
    ((index.remove? document).getD index)[other]?
      = if document = other then none else index[other]? := by
  unfold Index.remove?
  by_cases hc : index.contains document = true
  · rw [if_pos hc, Option.getD_some, ExtTreeMap.getElem?_erase]
    simp only [Std.LawfulEqOrd.compare_eq_iff_eq]
  · rw [if_neg hc, Option.getD_none]
    split
    · rename_i ho
      subst ho
      exact ExtTreeMap.getElem?_eq_none_of_contains_eq_false (Bool.eq_false_iff.2 hc)
    · rfl

theorem getElem?_move? (index : Index) {old new other : String} (h : other ≠ new) :
    ((index.move? old new).getD index)[other]? = if old = other then none else index[other]? := by
  unfold Index.move?
  rcases ho : index[old]? with _ | set
  · rw [Option.map_none, Option.getD_none]
    split
    · rename_i he
      rw [← he, ho]
    · rfl
  · rw [Option.map_some, Option.getD_some, ExtTreeMap.getElem?_insert, ExtTreeMap.getElem?_erase]
    simp only [Std.LawfulEqOrd.compare_eq_iff_eq, if_neg h.symm]

theorem memoryOf_dropCells (engine : Engine) (document other : String) :
    ((engine.dropCells document).memoryOf other).text = (engine.memoryOf other).text ∧
      ((engine.dropCells document).memoryOf other).tables = (engine.memoryOf other).tables := by
  unfold dropCells
  rw [memoryOf_modifyMemory]
  split
  · rename_i ho
    subst ho
    exact ⟨rfl, rfl⟩
  · exact ⟨rfl, rfl⟩

theorem Consistent.persist (h : engine.Consistent digest T) :
    engine.persist.2.Consistent digest T :=
  ⟨h.digests, h.policy, h.memory, h.entry⟩

theorem changedEntry_frame (engine : Engine) (document : String) (changed : Option Index) :
    let after := ((engine.dropCells document).setIndex changed).2
    after.policy = engine.policy ∧ after.formatter = engine.formatter ∧
      after.index = changed.getD engine.index ∧
      ∀ other, (after.memoryOf other).text = (engine.memoryOf other).text ∧
        (after.memoryOf other).tables = (engine.memoryOf other).tables := by
  obtain ⟨hi, hs, hp, hm⟩ := setIndex_frame (engine.dropCells document) changed
  refine ⟨hp, congrArg Settings.formatter hs, hi, fun other => ?_⟩
  unfold memoryOf
  rw [hm]
  exact memoryOf_dropCells engine document other

theorem removeEntry_frame (engine : Engine) (document : String) :
    let removed := (engine.removeEntry document).2
    removed.policy = engine.policy ∧ removed.formatter = engine.formatter ∧
      (∀ other, removed.index[other]? = if document = other then none else engine.index[other]?) ∧
      ∀ other, (removed.memoryOf other).text = (engine.memoryOf other).text ∧
        (removed.memoryOf other).tables = (engine.memoryOf other).tables := by
  intro removed
  obtain ⟨hp, hf, hi, hm⟩ := changedEntry_frame engine document (engine.index.remove? document)
  have hi : removed.index = (engine.index.remove? document).getD engine.index := hi
  refine ⟨hp, hf, fun other => ?_, hm⟩
  rw [hi]
  exact getElem?_remove? engine.index document other

theorem moveEntry_frame (engine : Engine) (old new : String) :
    let moved := (engine.moveEntry old new).2
    moved.policy = engine.policy ∧ moved.formatter = engine.formatter ∧
      (∀ other, other ≠ new →
        moved.index[other]? = if old = other then none else engine.index[other]?) ∧
      ∀ other, (moved.memoryOf other).text = (engine.memoryOf other).text ∧
        (moved.memoryOf other).tables = (engine.memoryOf other).tables := by
  intro moved
  obtain ⟨hp, hf, hi, hm⟩ := changedEntry_frame engine old (engine.index.move? old new)
  have hi : moved.index = (engine.index.move? old new).getD engine.index := hi
  refine ⟨hp, hf, fun other ho => ?_, hm⟩
  rw [hi]
  exact getElem?_move? engine.index ho

theorem Reflects.persist (h : engine.Reflects document text) :
    engine.persist.2.Reflects document text :=
  ⟨h.entry, h.tables⟩

/-- A document that is forgotten has no entry. -/
theorem Consistent.forget (h : engine.Consistent digest T) (document : String) :
    let after := (engine.forget document).2
    after.Consistent digest T ∧ ∀ other, after.index[other]?
      = if document = other then none else engine.index[other]? := by
  intro after
  obtain ⟨hp, hf, hindex, hmemory⟩ := removeEntry_frame (engine.invalidate document) document
  have hremoved : ((engine.invalidate document).removeEntry document).2.Consistent digest T := by
    refine h.mono (digest_setIndex _ _) hp fun other => ?_
    rw [(hmemory other).1, (hmemory other).2]
    by_cases ho : other = document
    · subst ho
      rw [memoryOf_invalidate_self]
      exact .inl ⟨rfl, rfl⟩
    · rw [memoryOf_invalidate_other engine ho, hindex, if_neg fun he => ho he.symm]
      exact .inr ⟨hf, rfl, rfl, rfl⟩
  have hafter : after = if ((engine.invalidate document).removeEntry document).1 then
      ((engine.invalidate document).removeEntry document).2.persist.2
      else ((engine.invalidate document).removeEntry document).2 := rfl
  rw [hafter]
  split
  · exact ⟨hremoved.persist, hindex⟩
  · exact ⟨hremoved, hindex⟩

theorem Consistent.moveEntry (h : engine.Consistent digest T) (old new : String) :
    ((engine.invalidate old).moveEntry old new).2.ConsistentBut digest T new := by
  have hold := h.invalidate old
  obtain ⟨hp, hf, hindex, hmemory⟩ := moveEntry_frame (engine.invalidate old) old new
  refine ⟨(digest_setIndex _ _).trans h.digests, hp.trans h.policy, fun other => ?_,
    fun other ho text ht hd => ?_⟩
  · unfold DocumentMemory.Consistent
    rw [(hmemory other).1, (hmemory other).2, hf]
    exact hold.memory other
  · rw [(hmemory other).1] at hd
    rw [hindex other ho, hf]
    by_cases he : old = other
    · subst he
      rw [memoryOf_invalidate_self] at hd
      cases hd
    · rw [if_neg he]
      exact hold.entry other text ht hd

/-- A document that is renamed leaves no entry under its old name, and has that of its text under
the new one. -/
theorem Consistent.rename (hT : SelfContained digest T) (h : engine.Consistent digest T)
    (ht : T text) (old new : String) :
    let after := (engine.rename old new text).2
    after.Consistent digest T ∧ after.Reflects new text ∧ ∀ other, other ≠ new →
      after.index[other]? = if old = other then none else engine.index[other]? := by
  intro after
  have hbut := h.moveEntry old new
  obtain ⟨-, -, hindex, -⟩ := moveEntry_frame (engine.invalidate old) old new
  generalize hmoved : (engine.invalidate old).moveEntry old new = moved at hbut hindex
  -- the pass under the new name is not quiet, so it never stops early
  have hpassed : moved.2.Passed (moved.2.recalculate new text none false).2 new text := by
    have htrusts := (hbut.memory new).trusts hT ht moved.2.index.lookup
    rw [← hbut.digests] at htrusts
    rcases recalculate_whole hbut.policy htrusts false with ⟨hq, -⟩ | hpassed
    · cases hq
    · exact hpassed
  have hconsistent := hpassed.consistent hT ht hbut
  have hreflects := hpassed.reflects hT ht
  have hothers : ∀ other, other ≠ new → (moved.2.recalculate new text none false).2.index[other]?
      = if old = other then none else engine.index[other]? := by
    intro other ho
    rw [hpassed.index, Index.publish_other ho, hindex other ho]
    rfl
  have hafter : after
      = if moved.1 && !(moved.2.recalculate new text none false).1.persisted then
          (moved.2.recalculate new text none false).2.persist.2
        else (moved.2.recalculate new text none false).2 := by
    show (engine.rename old new text).2 = _
    unfold Engine.rename
    rw [hmoved]
    simp only []
    split <;> rfl
  rw [hafter]
  generalize moved.2.recalculate new text none false = recalculated at *
  split
  · exact ⟨hconsistent.persist, hreflects.persist, hothers⟩
  · exact ⟨hconsistent, hreflects, hothers⟩

end Engine

end ComputedTables
