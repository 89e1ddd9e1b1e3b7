import ComputedTables.Proofs.WatcherSteps

/-!
# What a watcher makes of a report

A report concerns the documents that it mentions and no others (`noticeAll_bystander`), and each of
those through the one change that mentions it (`noticeAll_turn`).  A document that is called
created or modified is waited for from then on (`notice_pending`); the new name of one that is
called renamed has the entry of its text at once (`notice_publishes`); the old one has no entry,
nor has a document that is called removed (`notice_gone`).
-/

namespace ComputedTables

open Std (ExtTreeMap)

/-- The document that a change calls edited. -/
def Change.edited? : Change → Option Document
  | .created id => some id
  | .modified id => some id
  | _ => none

/-- The document that a change calls the new name of one that was renamed. -/
def Change.renamed? : Change → Option Document
  | .renamed _ new => some new
  | _ => none

/-- The document that a change calls gone. -/
def Change.gone? : Change → Option Document
  | .removed id => some id
  | .renamed old _ => some old
  | _ => none

/-- A change is an edit of a document, or makes a document go. -/
theorem Change.edited_or_gone (change : Change) :
    (∃ id, change.edited? = some id ∧ change.documents = [id]) ∨ (∃ id, change = .removed id) ∨
      ∃ old new, change = .renamed old new :=
  match change with
  | .created id => .inl ⟨id, rfl, rfl⟩
  | .modified id => .inl ⟨id, rfl, rfl⟩
  | .removed id => .inr (.inl ⟨id, rfl⟩)
  | .renamed old new => .inr (.inr ⟨old, new, rfl⟩)

theorem Document.same_comm (a b : Document) : a.same b = b.same a := by
  unfold Document.same
  exact BEq.comm

theorem Document.same_symm {a b : Document} (h : a.same b = true) : b.same a = true :=
  (b.same_comm a).trans h

theorem Document.same_trans {a b c : Document} (h : a.same b = true) (h' : b.same c = true) :
    a.same c = true := by
  unfold Document.same at h h' ⊢
  rw [beq_iff_eq] at h h' ⊢
  exact h.trans h'

namespace Watcher

variable {digest : Text.Digest} {T : String → Prop} {W : Document → Prop} {source : Source}
  {w : Watcher}

/-! ### The list of documents -/

theorem enlist_frame (w : Watcher) (source : Source) (id : Document) :
    (w.enlist source id).engine = w.engine ∧ (w.enlist source id).pending = w.pending ∧
      (w.enlist source id).bulk = w.bulk ∧
      ∀ d ∈ (w.enlist source id).documents, d ∈ w.documents ∨ d = id := by
  unfold enlist
  split
  · refine ⟨rfl, rfl, rfl, fun d hm => ?_⟩
    rw [List.mem_mergeSort, List.mem_append, List.mem_singleton] at hm
    exact hm
  · exact ⟨rfl, rfl, rfl, fun d hm => .inl (List.mem_of_mem_filter hm)⟩
  · exact ⟨rfl, rfl, rfl, fun d hm => .inl hm⟩

theorem Known.delist (h : w.Known W) (id : Document) : (w.delist id).Known W :=
  ⟨fun d hm => h.documents d (List.mem_of_mem_filter hm), h.bulk, h.pending⟩

theorem Known.enlist (h : w.Known W) {id : Document} (hid : W id) :
    (w.enlist source id).Known W := by
  obtain ⟨-, hp, hb, hd⟩ := w.enlist_frame source id
  refine ⟨fun d hm => ?_, ?_, ?_⟩
  · rcases hd d hm with hm | rfl
    · exact h.documents d hm
    · exact hid
  · rw [hb]
    exact h.bulk
  · rw [hp]
    exact h.pending

theorem Known.drop (h : w.Known W) (id : Document) :
    ({ w with pending := (w.pending.drop id).2 } : Watcher).Known W :=
  ⟨h.documents, h.bulk, fun d hm => h.pending d (ExtTreeMap.mem_of_mem_erase hm)⟩

theorem Known.restart (hw : World digest T W) (h : w.Known W) {id : Document} (hid : W id)
    (now : Nat) :
    ({ w with pending := w.pending.restart id now } : Watcher).Known W := by
  refine ⟨h.documents, h.bulk, fun d hm => ?_⟩
  rcases ExtTreeMap.mem_insert.1 hm with hm | hm
  · exact hw.same id d hid (Document.compare_eq_iff_same.1 hm)
  · exact h.pending d hm

/-! ### One change -/

theorem notice_edited {change : Change} {id : Document} (h : change.edited? = some id) (w : Watcher)
    (source : Source) (now : Nat) : w.notice source now change
      = { w.enlist source id with pending := (w.enlist source id).pending.restart id now } := by
  match change, h with
  | .created _, rfl => rfl
  | .modified _, rfl => rfl

/-- The watcher that has put the new name of a document on its list in place of the old one. -/
def relisted (w : Watcher) (source : Source) (old new : Document) : Watcher :=
  (({ w with pending := (w.pending.drop old).2 } : Watcher).delist old).enlist source new

theorem relisted_frame (w : Watcher) (source : Source) (old new : Document) :
    (w.relisted source old new).engine = w.engine ∧
      (w.relisted source old new).pending = (w.pending.drop old).2 := by
  obtain ⟨he, hp, -, -⟩ := (({ w with pending := (w.pending.drop old).2 } : Watcher).delist
    old).enlist_frame source new
  exact ⟨he, hp⟩

theorem notice_renamed (w : Watcher) (source : Source) (now : Nat) (old new : Document) :
    let after := w.notice source now (.renamed old new)
    after.documents = (w.relisted source old new).documents ∧
      after.bulk = (w.relisted source old new).bulk ∧
      after.pending = (w.relisted source old new).pending ∧
      after.engine = match source.read new with
        | .ok text => (w.engine.rename old.name new.name text).2
        | .error _ => w.engine := by
  obtain ⟨he, -⟩ := w.relisted_frame source old new
  unfold relisted at he ⊢
  rcases hr : source.read new with failure | text
  · simp [notice, hr, say, he]
  · simp [notice, hr, say, record, he]

/-- A report of documents of the run keeps what a watcher holds among them. -/
theorem Known.notice (hw : World digest T W) (h : w.Known W) (now : Nat) (change : Change)
    (hdocuments : ∀ id ∈ change.documents, W id) : (w.notice source now change).Known W := by
  rcases change.edited_or_gone with ⟨id, he, hd⟩ | ⟨id, rfl⟩ | ⟨old, new, rfl⟩
  · have hid := hdocuments id (hd ▸ List.mem_cons_self)
    rw [notice_edited he]
    exact (h.enlist hid).restart hw hid now
  · exact ((h.drop id).delist id).of_eq rfl rfl rfl
  · obtain ⟨hd, hb, hp, -⟩ := w.notice_renamed source now old new
    have hrelisted : (w.relisted source old new).Known W :=
      ((h.drop old).delist old).enlist (hdocuments new (List.mem_cons_of_mem _ List.mem_cons_self))
    exact hrelisted.of_eq hd hb hp

theorem notice_consistent (hw : World digest T W) (hs : source.Within T)
    (hc : w.engine.Consistent digest T) (now : Nat) (change : Change) :
    (w.notice source now change).engine.Consistent digest T := by
  rcases change.edited_or_gone with ⟨id, he, -⟩ | ⟨id, rfl⟩ | ⟨old, new, rfl⟩
  · rw [notice_edited he]
    show (w.enlist source id).engine.Consistent digest T
    rwa [(w.enlist_frame source id).1]
  · exact (hc.forget id.name).1
  · obtain ⟨-, -, -, he⟩ := w.notice_renamed source now old new
    rw [he]
    rcases hr : source.read new with failure | text
    · exact hc
    · exact (hc.rename hw.selfContained (hs.text new text hr) old.name new.name).1

/-- A change says nothing about a document that it does not mention. -/
theorem notice_bystander (hw : World digest T W) (hs : source.Within T)
    (hc : w.engine.Consistent digest T) (now : Nat) {change : Change}
    (hdocuments : ∀ m ∈ change.documents, W m) {id : Document}
    (hid : W id) (hother : ∀ m ∈ change.documents, m.same id = false) :
    (w.notice source now change).engine.index[id.name]? = w.engine.index[id.name]? ∧
      (w.notice source now change).pending.deadlines[id]? = w.pending.deadlines[id]? := by
  have hname : ∀ m ∈ change.documents, id.name ≠ m.name := by
    intro m hm he
    have := hw.names m id (hdocuments m hm) hid he.symm
    rw [hother m hm] at this
    cases this
  have hcompare : ∀ m ∈ change.documents, ¬ compare m id = .eq := by
    intro m hm he
    rw [Document.compare_eq_iff_same, hother m hm] at he
    cases he
  rcases change.edited_or_gone with ⟨m, he, hd⟩ | ⟨m, rfl⟩ | ⟨old, new, rfl⟩
  · obtain ⟨hengine, hp, -, -⟩ := w.enlist_frame source m
    rw [notice_edited he]
    refine ⟨by rw [hengine], ?_⟩
    show ((w.enlist source m).pending.deadlines.insert m _)[id]? = _
    rw [ExtTreeMap.getElem?_insert, if_neg (hcompare m (hd ▸ List.mem_cons_self)), hp]
  · constructor
    · show (w.engine.forget m.name).2.index[id.name]? = _
      rw [(hc.forget m.name).2, if_neg fun he => hname m List.mem_cons_self he.symm]
    · show (w.pending.deadlines.erase m)[id]? = _
      rw [ExtTreeMap.getElem?_erase, if_neg (hcompare m List.mem_cons_self)]
  · have hnew : new ∈ (Change.renamed old new).documents :=
      List.mem_cons_of_mem _ List.mem_cons_self
    obtain ⟨-, -, hp, he⟩ := w.notice_renamed source now old new
    rw [he, hp, (w.relisted_frame source old new).2]
    constructor
    · rcases hr : source.read new with failure | text
      · rfl
      · simp only []
        rw [(hc.rename hw.selfContained (hs.text new text hr) old.name new.name).2.2 id.name
          (hname new hnew), if_neg fun he => hname old List.mem_cons_self he.symm]
    · show (w.pending.deadlines.erase old)[id]? = _
      rw [ExtTreeMap.getElem?_erase, if_neg (hcompare old List.mem_cons_self)]

theorem notice_pending {change : Change} {m id : Document} (h : change.edited? = some m)
    (hsame : m.same id = true) (now : Nat) :
    (w.notice source now change).pending.deadlines[id]? = some (now + w.pending.delay) := by
  obtain ⟨-, hp, -, -⟩ := w.enlist_frame source m
  rw [notice_edited h]
  show ((w.enlist source m).pending.deadlines.insert m _)[id]? = _
  rw [ExtTreeMap.getElem?_insert, if_pos (Document.compare_eq_iff_same.2 hsame), hp]

theorem notice_publishes (hw : World digest T W) (hs : source.Within T)
    (hc : w.engine.Consistent digest T) {old new id : Document} {text : String}
    (hsame : new.same id = true)
    (hr : source.read id = .ok text) (now : Nat) :
    (w.notice source now (.renamed old new)).engine.Publishes id.name text := by
  obtain ⟨-, -, -, he⟩ := w.notice_renamed source now old new
  have hread := hs.same id new text (Document.same_symm hsame) hr
  rw [he, hread, ← Document.name_eq_of_same hsame]
  exact (hc.rename hw.selfContained (hs.text id text hr) old.name new.name).2.1.publishes

theorem notice_gone (hw : World digest T W) (hs : source.Within T)
    (hc : w.engine.Consistent digest T) {change : Change} (hdocuments : ∀ m ∈ change.documents, W m)
    (hapart : change.documents.Pairwise fun a b => a.same b = false)
    (hread : ∀ old new, change = .renamed old new → ∃ text, source.read new = .ok text)
    {m id : Document} (h : change.gone? = some m) (hsame : m.same id = true) (now : Nat) :
    (w.notice source now change).engine.index[id.name]? = none := by
  rw [← Document.name_eq_of_same hsame]
  match change, h with
  | .removed _, rfl =>
    show (w.engine.forget m.name).2.index[m.name]? = none
    rw [(hc.forget m.name).2, if_pos rfl]
  | .renamed _ new, rfl =>
    obtain ⟨text, hr⟩ := hread m new rfl
    obtain ⟨-, -, -, he⟩ := w.notice_renamed source now m new
    have hnew : new ∈ (Change.renamed m new).documents :=
      List.mem_cons_of_mem _ List.mem_cons_self
    have hne : m.name ≠ new.name := by
      intro hn
      have hdiffer := (List.pairwise_cons.1 hapart).1 new List.mem_cons_self
      rw [hw.names m new (hdocuments m List.mem_cons_self) (hdocuments new hnew) hn] at hdiffer
      cases hdiffer
    rw [he, hr]
    simp only []
    rw [(hc.rename hw.selfContained (hs.text new text hr) m.name new.name).2.2 m.name hne,
      if_pos rfl]

/-! ### Reports -/

theorem noticeAll_append (w : Watcher) (source : Source) (now : Nat)
    (before after : List Change) : w.noticeAll source now (before ++ after)
      = (w.noticeAll source now before).noticeAll source now after :=
  List.foldl_append

theorem notice_delay (w : Watcher) (source : Source) (now : Nat) (change : Change) :
    (w.notice source now change).pending.delay = w.pending.delay := by
  rcases change.edited_or_gone with ⟨id, he, -⟩ | ⟨id, rfl⟩ | ⟨old, new, rfl⟩
  · rw [notice_edited he]
    show (w.enlist source id).pending.delay = _
    rw [(w.enlist_frame source id).2.1]
  · rfl
  · rw [(w.notice_renamed source now old new).2.2.1, (w.relisted_frame source old new).2]
    rfl

theorem noticeAll_delay (source : Source) (now : Nat) : ∀ (changes : List Change) (w : Watcher),
    (w.noticeAll source now changes).pending.delay = w.pending.delay
  | [], _ => rfl
  | change :: changes, w =>
    (noticeAll_delay source now changes (w.notice source now change)).trans
      (w.notice_delay source now change)

theorem Known.noticeAll (hw : World digest T W) (now : Nat) :
    ∀ (changes : List Change) {w : Watcher}, w.Known W →
      (∀ m ∈ changes.flatMap Change.documents, W m) → (w.noticeAll source now changes).Known W
  | [], _, h, _ => h
  | change :: changes, w, h, hd => by
    rw [List.flatMap_cons] at hd
    have hfirst : (w.notice source now change).Known W :=
      h.notice hw now change fun m hm => hd m (List.mem_append_left _ hm)
    exact hfirst.noticeAll hw now changes fun m hm => hd m (List.mem_append_right _ hm)

theorem noticeAll_consistent (hw : World digest T W) (hs : source.Within T) (now : Nat) :
    ∀ (changes : List Change) {w : Watcher}, w.engine.Consistent digest T →
      (w.noticeAll source now changes).engine.Consistent digest T
  | [], _, hc => hc
  | change :: changes, _, hc =>
    noticeAll_consistent hw hs now changes (notice_consistent hw hs hc now change)

/-- A report says nothing about a document that it does not mention. -/
theorem noticeAll_bystander (hw : World digest T W) (hs : source.Within T) (now : Nat)
    {id : Document} (hid : W id) : ∀ (changes : List Change) {w : Watcher},
      w.engine.Consistent digest T →
      (∀ m ∈ changes.flatMap Change.documents, W m) →
      (∀ m ∈ changes.flatMap Change.documents, m.same id = false) →
      (w.noticeAll source now changes).engine.index[id.name]? = w.engine.index[id.name]? ∧
        (w.noticeAll source now changes).pending.deadlines[id]? = w.pending.deadlines[id]?
  | [], _, _, _, _ => ⟨rfl, rfl⟩
  | change :: changes, w, hc, hd, ho => by
    rw [List.flatMap_cons] at hd ho
    obtain ⟨hindex, hpending⟩ := notice_bystander hw hs hc now
      (fun m hm => hd m (List.mem_append_left _ hm)) hid
      (fun m hm => ho m (List.mem_append_left _ hm))
    obtain ⟨hindex', hpending'⟩ := noticeAll_bystander hw hs now hid changes
      (notice_consistent hw hs hc now change) (fun m hm => hd m (List.mem_append_right _ hm))
      (fun m hm => ho m (List.mem_append_right _ hm))
    exact ⟨hindex'.trans hindex, hpending'.trans hpending⟩

/-- A report that mentions each document at most once is, for a document that it mentions, the
change that mentions it: nothing else in it matters to the document. -/
theorem noticeAll_turn (hw : World digest T W) (hs : source.Within T) (now : Nat) {id m : Document}
    (hid : W id) {changes : List Change} (hc : w.engine.Consistent digest T)
    (hd : ∀ m ∈ changes.flatMap Change.documents, W m)
    (hapart : (changes.flatMap Change.documents).Pairwise fun a b => a.same b = false)
    {change : Change} (hchange : change ∈ changes) (hm : m ∈ change.documents)
    (hsame : m.same id = true) : ∃ before : Watcher, before.engine.Consistent digest T ∧
      before.pending.delay = w.pending.delay ∧
      (w.noticeAll source now changes).engine.index[id.name]?
        = (before.notice source now change).engine.index[id.name]? ∧
      (w.noticeAll source now changes).pending.deadlines[id]?
        = (before.notice source now change).pending.deadlines[id]? := by
  obtain ⟨first, rest, rfl⟩ := List.append_of_mem hchange
  rw [List.flatMap_append, List.flatMap_cons] at hd hapart
  have hrest : ∀ m' ∈ rest.flatMap Change.documents, m'.same id = false := by
    intro m' hm'
    have hdiffer := (List.pairwise_append.1 (List.pairwise_append.1 hapart).2.1).2.2 m hm m' hm'
    rw [Bool.eq_false_iff] at hdiffer ⊢
    exact fun h => hdiffer (Document.same_trans hsame (Document.same_symm h))
  have hfirst := noticeAll_consistent hw hs now first hc
  refine ⟨w.noticeAll source now first, hfirst, noticeAll_delay source now first w, ?_⟩
  rw [noticeAll_append]
  exact noticeAll_bystander hw hs now hid rest (notice_consistent hw hs hfirst now change)
    (fun m hm => hd m (List.mem_append_right _ (List.mem_append_right _ hm))) hrest

end Watcher

end ComputedTables
