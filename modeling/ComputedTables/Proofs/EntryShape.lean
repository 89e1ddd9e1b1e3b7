import ComputedTables.Proofs.IndexChanges
import ComputedTables.Proofs.Provenance

/-!
# The shape of entries

Tables publish what their formulas make of published variables, and an update of the index puts
entries together from those that are there and from what a pass has collected.  So a shape that
tables hand on (`EntryShape`) holds of all entries in every run that starts with it: the tables that
the engine remembers were computed under indices of that shape (`EntryShape.Kept.act`).
-/

namespace ComputedTables

open Std (ExtTreeMap)

/-- A shape of the variables that are published and of the entries they are in.  A table publishes
variables of that shape if those it can refer to have it. -/
structure EntryShape where
  Fits : String → Variable → Prop
  Entry : VariableSet → Prop
  fits : ∀ {set : VariableSet} {name : String} {v : Variable}, Entry set → set[name]? = some v →
    Fits name v
  entry : ∀ {set : VariableSet}, set.isEmpty = false →
    (∀ (name : String) (v : Variable), set[name]? = some v → Fits name v) → Entry set
  row : ∀ {lookup : Lookup} {row : List Cell} {name : String} {v : Variable},
    (∀ document name v, lookup document name = some v → Fits name v) →
      rowVariable? lookup row = some (name, v) → Fits name v

theorem Engine.Grounded.drops {T : String → Prop} {I : Index → Prop} {engine after : Engine}
    {document : String} (h : engine.Grounded T I) (hdrops : engine.Drops document after) :
    after.Grounded T I := by
  intro other start table htable
  have hformatter : after.formatter = engine.formatter :=
    congrArg Settings.formatter hdrops.settings
  by_cases ho : other = document
  · subst ho
    rw [hdrops.self.2] at htable
    simp at htable
  · rw [(hdrops.other other ho).tables] at htable
    rw [hformatter, hdrops.digest]
    exact h other start table htable

namespace EntryShape

variable (S : EntryShape)

/-- All variables of a set have the shape. -/
def OfSet (set : VariableSet) : Prop :=
  ∀ (name : String) (v : Variable), set[name]? = some v → S.Fits name v

def OfLookup (lookup : Lookup) : Prop :=
  ∀ document name v, lookup document name = some v → S.Fits name v

def OfIndex (index : Index) : Prop :=
  ∀ (document : String) (set : VariableSet), index[document]? = some set → S.Entry set

/-- The index has the shape, and so had those under which remembered tables were computed, from the
given texts. -/
structure Kept (T : String → Prop) (engine : Engine) : Prop where
  index : S.OfIndex engine.index
  tables : engine.Grounded T S.OfIndex

variable {S}

/-! ### Sets of variables -/

theorem ofSet_empty : S.OfSet ∅ := by
  intro name v h
  simp at h

theorem OfSet.union {a b : VariableSet} (ha : S.OfSet a) (hb : S.OfSet b) : S.OfSet (a ∪ b) := by
  intro name v h
  rw [ExtTreeMap.getElem?_union] at h
  rcases Option.or_eq_some_iff.1 h with hv | ⟨-, hv⟩
  · exact hb name v hv
  · exact ha name v hv

theorem OfSet.insert {set : VariableSet} (h : S.OfSet set) {name : String} {v : Variable}
    (hv : S.Fits name v) : S.OfSet (ExtTreeMap.insert set name v) := by
  intro other w hw
  rw [ExtTreeMap.getElem?_insert] at hw
  split at hw
  · rename_i heq
    cases hw
    rwa [← Std.compare_eq_iff_eq.1 heq]
  · exact h other w hw

theorem OfSet.filter {set : VariableSet} (h : S.OfSet set) (p : String → Variable → Bool) :
    S.OfSet (ExtTreeMap.filter p set) := by
  intro name v hv
  rw [ExtTreeMap.getElem?_filter'] at hv
  exact h name v (Option.filter_eq_some_iff.1 hv).1

theorem ofSet_collectAll : ∀ {tables : List RememberedTable} {set : VariableSet}, S.OfSet set →
    (∀ table ∈ tables, S.OfSet table.published) → S.OfSet (collectAll set tables)
  | [], _, hset, _ => hset
  | table :: tables, set, hset, htables => by
    show S.OfSet (collectAll (set ∪ table.published) tables)
    exact ofSet_collectAll (hset.union (htables table List.mem_cons_self))
      fun t ht => htables t (List.mem_cons_of_mem _ ht)

theorem ofSet_published {lookup : Lookup} (h : S.OfLookup lookup) (grid : Grid) :
    S.OfSet (grid.published lookup) := by
  refine List.foldlRecOn _ _ ofSet_empty fun set hset r hr => ?_
  obtain ⟨row, -, hrow⟩ := List.mem_filterMap.1 hr
  exact hset.insert (S.row h hrow)

/-! ### Indices -/

section Indices

variable {index changed : Index} {document : String} {set : VariableSet}

theorem OfIndex.lookup (h : S.OfIndex index) : S.OfLookup index.lookup := by
  intro document name v hv
  obtain ⟨set, hset, hname⟩ := Option.bind_eq_some_iff.1 hv
  exact S.fits (h document set hset) hname

theorem OfIndex.insert (h : S.OfIndex index) (hset : S.Entry set) (document : String) :
    S.OfIndex (ExtTreeMap.insert index document set) := by
  intro other entry hentry
  rw [ExtTreeMap.getElem?_insert] at hentry
  split at hentry
  · cases hentry
    exact hset
  · exact h other entry hentry

theorem OfIndex.erase (h : S.OfIndex index) (document : String) :
    S.OfIndex (ExtTreeMap.erase index document) := by
  intro other entry hentry
  rw [ExtTreeMap.getElem?_erase] at hentry
  split at hentry
  · cases hentry
  · exact h other entry hentry

theorem OfIndex.remove? (h : S.OfIndex index) (hchanged : index.remove? document = some changed) :
    S.OfIndex changed := by
  unfold Index.remove? at hchanged
  split at hchanged
  · cases hchanged
    exact h.erase document
  · cases hchanged

theorem OfIndex.replace? (h : S.OfIndex index) (hset : S.OfSet set) {policy : WhenEmpty}
    (hchanged : index.replace? policy document set = some changed) : S.OfIndex changed := by
  unfold Index.replace? at hchanged
  split at hchanged
  · cases policy with
    | clear => exact h.remove? hchanged
    | keep => cases hchanged
  · rename_i hne
    split at hchanged
    · cases hchanged
    · cases hchanged
      exact h.insert (S.entry (Bool.eq_false_iff.2 hne) hset) document

theorem OfIndex.merge? (h : S.OfIndex index) (hset : S.OfSet set)
    (hchanged : index.merge? document set = some changed) : S.OfIndex changed := by
  obtain ⟨hne, rfl⟩ := Index.merge?_eq_some hchanged
  refine h.insert (S.entry ?_ (OfSet.union ?_ (hset.filter _))) document
  · rw [ExtTreeMap.isEmpty_union, hne, Bool.and_false]
  · intro name v hv
    rw [← Index.lookup_eq_getD] at hv
    exact h.lookup document name v hv

theorem OfIndex.move? (h : S.OfIndex index) {old new : String}
    (hchanged : index.move? old new = some changed) : S.OfIndex changed := by
  obtain ⟨set, hset, rfl⟩ := Option.map_eq_some_iff.1 hchanged
  exact (h.erase old).insert (h old set hset) new

theorem OfIndex.getD {changed : Option Index} (h : S.OfIndex index)
    (hchanged : ∀ after, changed = some after → S.OfIndex after) :
    S.OfIndex (changed.getD index) := by
  rcases changed with _ | after
  · exact h
  · exact hchanged after rfl

end Indices

/-! ### Engines -/

section Engines

open Engine

variable {T : String → Prop} {engine after : Engine}

theorem Kept.pass (h : S.Kept T engine) (document text : String) (scope : Option Span) :
    S.OfSet (engine.pass document text scope).collected := by
  rw [(engine.pass_covers document text scope).collected]
  refine ofSet_collectAll ofSet_empty fun table htable => ?_
  obtain ⟨span, -, hresult⟩ := List.mem_filterMap.1 htable
  rcases DocumentMemory.result?_cases hresult with hcurrent | rfl
  · obtain ⟨text, span, index, -, -, -, hindex, rfl⟩ :=
      h.tables document _ table (current?_eq_some hcurrent).1
    exact ofSet_published hindex.lookup _
  · exact ofSet_published h.index.lookup _

theorem Kept.recalculate (h : S.Kept T engine) (document text : String) (cursor : Option Nat)
    (quiet : Bool) : S.OfIndex (engine.recalculate document text cursor quiet).2.index := by
  rcases hs : engine.skips document text quiet with _ | _
  · have hset := h.pass document text (scopeOf text cursor quiet)
    rw [recalculate_of_not_skips hs, (publish_frame engine document _).2.2.1]
    refine h.index.getD fun changed hchanged => ?_
    unfold changedBy? at hchanged
    split at hchanged
    · exact h.index.replace? hset hchanged
    · exact h.index.merge? hset hchanged
  · rw [recalculate_of_skips hs]
    exact h.index

theorem Kept.moveEntry (h : S.Kept T engine) (old new : String) :
    S.Kept T ((engine.invalidate old).moveEntry old new).2 := by
  refine ⟨?_, h.tables.drops (drops_changedEntry engine old _)⟩
  have hindex := (changedEntry_frame (engine.invalidate old) old
    ((engine.invalidate old).index.move? old new)).2.2.1
  unfold Engine.moveEntry
  rw [hindex]
  exact h.index.getD fun changed => h.index.move?

theorem Kept.act_index (h : S.Kept T engine) : ∀ action, S.OfIndex (engine.act action).2.index
  | .recalculate document text cursor quiet => h.recalculate document text cursor quiet
  | .render document text => h.recalculate document text none false
  | .rename old new text => by
    have hmoved := (h.moveEntry old new).recalculate new text none false
    rw [act_rename]
    rcases rename_cases engine old new text with ⟨-, -, he⟩ | ⟨-, he⟩
    · rw [he]
      exact hmoved
    · rw [he]
      exact hmoved
  | .forget document => by
    have hindex := (changedEntry_frame (engine.invalidate document) document
      ((engine.invalidate document).index.remove? document)).2.2.1
    have hremoved : S.OfIndex ((engine.invalidate document).removeEntry document).2.index := by
      unfold removeEntry
      rw [hindex]
      exact h.index.getD fun changed => h.index.remove?
    show S.OfIndex (engine.forget document).2.index
    unfold Engine.forget
    dsimp only
    split
    · exact hremoved
    · exact hremoved
  | .invalidate _ => h.index
  | .withSettings _ => h.index

theorem Kept.act (h : S.Kept T engine) (action : Action)
    (htext : ∀ text, action.text? = some text → T text) : S.Kept T (engine.act action).2 := by
  refine ⟨h.act_index action, h.tables.act action htext ?_⟩
  intro document p hp
  rcases (passOver?_cases hp).2 with he | ⟨old, -, he⟩
  · rw [he]
    exact h.index
  · rw [he]
    exact (h.moveEntry old document).index

end Engines

end EntryShape

end ComputedTables
