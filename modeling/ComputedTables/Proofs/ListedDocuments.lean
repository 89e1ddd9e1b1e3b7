import ComputedTables.Proofs.Session

/-!
# The list of documents and the selection

A watcher is given commands, and the source may be any other at each of them.  Only reports change
the list of documents (`KeepsList`).  Whatever a report says, it leaves the selection on the list
(`Selects.noticeAll`), no document on it twice and the list in order (`KeptByListing.noticeAll`).
What it mentions is on the list afterwards if and only if it has tables then (`lists_noticeAll`).
So when every report tells of all that has changed since the one before, the list is that of the
documents with tables as soon as everything has been reported (`listing_stays_valid`).
-/

namespace ComputedTables

/-- What a watcher can be told to do. -/
inductive Command where
  | report (now : Nat) (changes : List Change)
  | tick (now : Nat)
  | indexNext
  | indexAll
  | press (key : Key)
  deriving DecidableEq, Repr

namespace Source

/-- A source reads a document alike however its path is written. -/
def Alike (source : Source) : Prop :=
  ∀ a b text, a.same b = true → source.read a = .ok text → source.read b = .ok text

/-- A source has a document. -/
def Holds (source : Source) (id : Document) : Prop :=
  ∃ m ∈ source.list, m.same id = true

instance (source : Source) (id : Document) : Decidable (source.Holds id) :=
  inferInstanceAs (Decidable (∃ m ∈ source.list, m.same id = true))

/-- The text of a document that a source has; one that cannot be read counts as none. -/
def text? (source : Source) (id : Document) : Option String :=
  if source.Holds id then (source.read id).toOption else none

/-- A source has a document with tables. -/
def Offers (source : Source) (id : Document) : Prop :=
  source.Holds id ∧ source.hasTables id = true

variable {source before after : Source} {a b id : Document}

theorem Holds.of_same (h : source.Holds a) (hsame : a.same b = true) : source.Holds b := by
  obtain ⟨m, hm, hma⟩ := h
  exact ⟨m, hm, Document.same_trans hma hsame⟩

theorem hasTables_eq (source : Source) (id : Document) :
    source.hasTables id = (source.read id).toOption.any fun text => !(tables text).isEmpty := by
  unfold hasTables
  rcases source.read id with failure | text <;> rfl

theorem Alike.toOption_eq (h : source.Alike) (hsame : a.same b = true) :
    (source.read a).toOption = (source.read b).toOption := by
  rcases ha : source.read a with failure | text
  · rcases hb : source.read b with failure' | text
    · rfl
    · rw [h b a text (Document.same_symm hsame) hb] at ha
      cases ha
  · rw [h a b text hsame ha]

theorem Alike.hasTables_eq (h : source.Alike) (hsame : a.same b = true) :
    source.hasTables a = source.hasTables b := by
  rw [Source.hasTables_eq, Source.hasTables_eq, h.toOption_eq hsame]

theorem Alike.text?_eq (h : source.Alike) (hsame : a.same b = true) :
    source.text? a = source.text? b := by
  have hholds : source.Holds a ↔ source.Holds b :=
    ⟨fun ha => ha.of_same hsame, fun hb => hb.of_same (Document.same_symm hsame)⟩
  simp only [text?, hholds, h.toOption_eq hsame]

theorem offers_iff_text? : source.Offers id
    ↔ ((source.text? id).any fun text => !(tables text).isEmpty) = true := by
  unfold Offers text?
  rw [hasTables_eq]
  split
  · next h => exact and_iff_right h
  · next h => exact ⟨fun ho => absurd ho.1 h, fun hn => nomatch hn⟩

theorem offers_congr (h : before.text? id = after.text? id) :
    before.Offers id ↔ after.Offers id := by
  rw [offers_iff_text?, offers_iff_text?, h]

end Source

theorem Contents.holds_iff {contents : Contents} {id : Document} :
    contents.source.Holds id ↔ contents[id]?.isSome = true := by
  unfold Source.Holds
  simp only [← Document.compare_eq_iff_same]
  exact Deadlines.exists_key_iff

theorem Contents.alike (contents : Contents) : contents.source.Alike :=
  Session.read_source_of_same contents

/-! ### What reports tell -/

/-- A report tells of all that has changed in a source.  What it mentions and can be read is a
document of the source, and what it calls gone is gone, as it is when the report is right and
mentions no document twice. -/
structure Tells (before after : Source) (changes : List Change) : Prop where
  mentions : ∀ id, before.text? id ≠ after.text? id →
    ∃ m ∈ changes.flatMap Change.documents, m.same id = true
  holds : ∀ m ∈ changes.flatMap Change.documents, ∀ text, after.read m = .ok text → after.Holds m
  gone : ∀ change ∈ changes, ∀ m, change.gone? = some m → after.text? m = none

/-- The source as it was when the watcher was last told of its changes. -/
def lastSeen (source : Source) : List (Source × Command) → Source
  | [] => source
  | (seen, .report _ _) :: moments => lastSeen seen moments
  | _ :: moments => lastSeen source moments

/-- Every report tells of all that has changed since the one before. -/
def Accurate (source : Source) : List (Source × Command) → Prop
  | [] => True
  | (seen, .report _ changes) :: moments => Tells source seen changes ∧ Accurate seen moments
  | _ :: moments => Accurate source moments

section Tells

variable {before after : Source} {changes : List Change} {id : Document}

/-- Only documents that one of the two sources has can differ. -/
theorem Tells.mentions_of_listed (hbefore : before.Alike) (hafter : after.Alike)
    (h : ∀ m ∈ before.list ++ after.list, before.text? m ≠ after.text? m →
      ∃ k ∈ changes.flatMap Change.documents, k.same m = true)
    (hne : before.text? id ≠ after.text? id) :
    ∃ m ∈ changes.flatMap Change.documents, m.same id = true := by
  have hheld : ∃ m ∈ before.list ++ after.list, m.same id = true := by
    by_contra hnone
    have hb : ¬ before.Holds id := fun ⟨m, hm, hsame⟩ =>
      hnone ⟨m, List.mem_append_left _ hm, hsame⟩
    have ha : ¬ after.Holds id := fun ⟨m, hm, hsame⟩ =>
      hnone ⟨m, List.mem_append_right _ hm, hsame⟩
    rw [Source.text?, Source.text?, if_neg hb, if_neg ha] at hne
    exact hne rfl
  obtain ⟨m, hm, hsame⟩ := hheld
  rw [← hbefore.text?_eq hsame, ← hafter.text?_eq hsame] at hne
  obtain ⟨k, hk, hkm⟩ := h m hm hne
  exact ⟨k, hk, Document.same_trans hkm hsame⟩

theorem Tells.offers_iff_hasTables (h : Tells before after changes) (hafter : after.Alike)
    {m : Document} (hm : m ∈ changes.flatMap Change.documents) (hsame : m.same id = true) :
    after.Offers id ↔ after.hasTables id = true := by
  refine ⟨And.right, fun ht => ⟨?_, ht⟩⟩
  rw [← hafter.hasTables_eq hsame] at ht
  rcases hr : after.read m with failure | text
  · rw [Source.hasTables_eq, hr] at ht
    cases ht
  · exact (h.holds m hm text hr).of_same hsame

theorem Tells.hasTables_of_gone (h : Tells before after changes) (hafter : after.Alike)
    {change : Change} (hchange : change ∈ changes) {m : Document} (hgone : change.gone? = some m)
    (hsame : m.same id = true) : after.hasTables id = false := by
  have hm : m ∈ changes.flatMap Change.documents := by
    refine List.mem_flatMap.2 ⟨change, hchange, ?_⟩
    match change, hgone with
    | .removed _, rfl => exact List.mem_cons_self
    | .renamed _ _, rfl => exact List.mem_cons_self
  rw [Bool.eq_false_iff]
  intro ht
  have hoffers := Source.offers_iff_text?.1 ((h.offers_iff_hasTables hafter hm hsame).2 ht)
  rw [← hafter.text?_eq hsame, h.gone change hchange m hgone] at hoffers
  cases hoffers

end Tells

namespace Watcher

def obey (w : Watcher) (source : Source) : Command → Watcher
  | .report now changes => w.noticeAll source now changes
  | .tick now => w.tick source now
  | .indexNext => w.indexNext source
  | .indexAll => w.indexAll source
  | .press key => w.press source key

/-- The watcher after commands, each with the source as it is then. -/
def obeyAll (w : Watcher) (moments : List (Source × Command)) : Watcher :=
  moments.foldl (fun w moment => w.obey moment.1 moment.2) w

variable {source : Source} {w middle after : Watcher} {id : Document}

/-! ### The selection -/

/-- The selection is on the list, or at the start of an empty one. -/
def Selects (w : Watcher) : Prop :=
  w.selected < w.documents.length ∨ w.documents = [] ∧ w.selected = 0

/-- The list of documents stays, and a selection on it stays on it. -/
structure KeepsList (w after : Watcher) : Prop where
  documents : after.documents = w.documents
  selects : w.Selects → after.Selects

theorem KeepsList.of_eq (hd : after.documents = w.documents) (hs : after.selected = w.selected) :
    KeepsList w after := by
  refine ⟨hd, fun h => ?_⟩
  unfold Selects at h ⊢
  rwa [hd, hs]

theorem KeepsList.trans (h : KeepsList w middle) (h' : KeepsList middle after) :
    KeepsList w after :=
  ⟨h'.documents.trans h.documents, fun hs => h'.selects (h.selects hs)⟩

theorem keepsList_indexNext (w : Watcher) (source : Source) :
    KeepsList w (w.indexNext source) := by
  unfold indexNext
  rcases w.bulk with _ | bulk
  · exact .of_eq rfl rfl
  · simp only []
    split <;> exact .of_eq rfl rfl

theorem keepsList_indexTimes (source : Source) : ∀ (n : Nat) (w : Watcher),
    KeepsList w (indexTimes source n w)
  | 0, _ => .of_eq rfl rfl
  | n + 1, w => (w.keepsList_indexNext source).trans (keepsList_indexTimes source n _)

theorem keepsList_indexAll (w : Watcher) (source : Source) : KeepsList w (w.indexAll source) := by
  unfold indexAll
  split
  · exact .of_eq rfl rfl
  · exact keepsList_indexTimes source _ w

theorem keepsList_settle (source : Source) (w : Watcher) (id : Document) :
    KeepsList w (settle source w id) := by
  unfold settle
  rcases source.read id with failure | text
  · exact .of_eq rfl rfl
  · simp only []
    split <;> exact .of_eq rfl rfl

theorem keepsList_foldl_settle (source : Source) : ∀ (ids : List Document) (w : Watcher),
    KeepsList w (ids.foldl (settle source) w)
  | [], _ => .of_eq rfl rfl
  | id :: ids, w => (keepsList_settle source w id).trans (keepsList_foldl_settle source ids _)

theorem keepsList_tick (w : Watcher) (source : Source) (now : Nat) :
    KeepsList w (w.tick source now) := by
  have hexpired : KeepsList w (w.expire now) := .of_eq rfl rfl
  rw [tick_eq]
  exact (hexpired.trans (keepsList_foldl_settle source _ _)).trans (keepsList_indexNext _ source)

theorem keepsList_refreshSelected (w : Watcher) (source : Source) :
    KeepsList w (w.refreshSelected source) := by
  unfold refreshSelected
  rcases w.current? with _ | id
  · exact .of_eq rfl rfl
  · simp only []
    rcases source.read id with failure | text <;> exact .of_eq rfl rfl

theorem keepsList_tableToExport (w : Watcher) (source : Source) :
    KeepsList w (w.tableToExport source).2 := by
  unfold tableToExport
  rcases w.current? with _ | id
  · exact .of_eq rfl rfl
  · simp only []
    rcases source.read id with failure | text <;> exact .of_eq rfl rfl

theorem keepsList_writeExport (w : Watcher) (source : Source) :
    KeepsList w (w.writeExport source) := by
  have ht := w.keepsList_tableToExport source
  unfold writeExport
  rcases he : w.tableToExport source with ⟨_ | ⟨name, lines⟩, exported⟩ <;> rw [he] at ht
  · exact ht.trans (.of_eq rfl rfl)
  · simp only []
    split <;> exact ht.trans (.of_eq rfl rfl)

theorem keepsList_selectBelow (w : Watcher) : KeepsList w w.selectBelow := by
  unfold selectBelow
  split
  · next hlt => exact ⟨rfl, fun _ => .inl hlt⟩
  · exact .of_eq rfl rfl

theorem keepsList_selectAbove (w : Watcher) : KeepsList w w.selectAbove := by
  unfold selectAbove
  split
  · next hpos =>
    refine ⟨rfl, fun h => .inl ?_⟩
    rcases h with h | ⟨-, h⟩
    · exact Nat.lt_of_le_of_lt (Nat.sub_le _ _) h
    · omega
  · exact .of_eq rfl rfl

theorem keepsList_press (w : Watcher) (source : Source) (key : Key) :
    KeepsList w (w.press source key) := by
  have hcleared : KeepsList w { w with status := none } := .of_eq rfl rfl
  unfold press
  split
  · unfold pressInList
    simp only []
    split
    · exact hcleared.trans (keepsList_selectAbove _)
    · exact hcleared.trans (keepsList_selectAbove _)
    · exact hcleared.trans (keepsList_selectBelow _)
    · exact hcleared.trans (keepsList_selectBelow _)
    · exact .of_eq rfl rfl
    · exact .of_eq rfl rfl
    · exact hcleared.trans (keepsList_refreshSelected _ source)
    · exact hcleared.trans (keepsList_writeExport _ source)
    · exact .of_eq rfl rfl
    · exact .of_eq rfl rfl
    · exact hcleared
  · unfold pressInHelp
    split <;> exact .of_eq rfl rfl

/-- Only a report changes the list. -/
theorem obey_cases (w : Watcher) (source : Source) (command : Command) :
    (∃ now changes, command = .report now changes) ∨ KeepsList w (w.obey source command) :=
  match command with
  | .report now changes => .inl ⟨now, changes, rfl⟩
  | .tick now => .inr (w.keepsList_tick source now)
  | .indexNext => .inr (w.keepsList_indexNext source)
  | .indexAll => .inr (w.keepsList_indexAll source)
  | .press key => .inr (w.keepsList_press source key)

/-- What reports keep, and what stays with the list and the selection on it, is kept throughout. -/
theorem obeyAll_keeps {P : Watcher → Prop}
    (hreport : ∀ w source now changes, P w → P (w.noticeAll source now changes))
    (hquiet : ∀ w after, KeepsList w after → P w → P after) :
    ∀ (moments : List (Source × Command)) {w : Watcher}, P w → P (w.obeyAll moments)
  | [], _, h => h
  | (source, command) :: moments, w, h => by
    have hobeyed : P (w.obey source command) := by
      rcases w.obey_cases source command with ⟨now, changes, rfl⟩ | hkeeps
      · exact hreport w source now changes h
      · exact hquiet w _ hkeeps h
    exact obeyAll_keeps hreport hquiet moments hobeyed

/-! ### What a change makes of the list -/

/-- The list with a document put where it belongs. -/
def inserted (documents : List Document) (id : Document) : List Document :=
  (documents ++ [id]).mergeSort fun a b => (compare a b).isLE

theorem enlist_cases (w : Watcher) (source : Source) (id : Document) :
    (source.hasTables id = true ∧ w.documents.any id.same = false ∧
        w.enlist source id = { w with documents := inserted w.documents id }) ∨
      (source.hasTables id = false ∧ w.enlist source id = w.delist id) ∨
      (source.hasTables id = w.documents.any id.same ∧ w.enlist source id = w) := by
  unfold enlist
  rcases source.hasTables id <;> rcases w.documents.any id.same
  · exact .inr (.inr ⟨rfl, rfl⟩)
  · exact .inr (.inl ⟨rfl, rfl⟩)
  · exact .inl ⟨rfl, rfl, rfl⟩
  · exact .inr (.inr ⟨rfl, rfl⟩)

/-- What is enlisted depends on the list and the selection only. -/
theorem enlist_congr (w after : Watcher) (hd : after.documents = w.documents)
    (hs : after.selected = w.selected) (source : Source) (id : Document) :
    (after.enlist source id).documents = (w.enlist source id).documents ∧
      (after.enlist source id).selected = (w.enlist source id).selected := by
  unfold enlist delist
  rw [hd, hs]
  split
  · exact ⟨rfl, rfl⟩
  · exact ⟨rfl, rfl⟩
  · exact ⟨hd, hs⟩

/-- The watcher with the list that a change leaves, and nothing else changed. -/
def relist (w : Watcher) (source : Source) : Change → Watcher
  | .created id | .modified id => w.enlist source id
  | .removed id => w.delist id
  | .renamed old new => (w.delist old).enlist source new

theorem notice_relists (w : Watcher) (source : Source) (now : Nat) (change : Change) :
    (w.notice source now change).documents = (w.relist source change).documents ∧
      (w.notice source now change).selected = (w.relist source change).selected := by
  match change with
  | .created _ => exact ⟨rfl, rfl⟩
  | .modified _ => exact ⟨rfl, rfl⟩
  | .removed _ => exact ⟨rfl, rfl⟩
  | .renamed old new =>
    obtain ⟨hd, hs⟩ := enlist_congr (w.delist old)
      (({ w with pending := (w.pending.drop old).2 } : Watcher).delist old) rfl rfl source new
    unfold notice
    simp only []
    rcases source.read new with failure | text <;> exact ⟨hd, hs⟩

/-- A property of a watcher's list that taking documents off it and putting new ones on keeps. -/
structure KeptByListing (P : List Document → Prop) : Prop where
  filter : ∀ documents keep, P documents → P (documents.filter keep)
  insert : ∀ documents id, documents.any id.same = false → P documents → P (inserted documents id)

section KeptByListing

variable {P : List Document → Prop}

theorem KeptByListing.enlist (hP : KeptByListing P) (h : P w.documents) (source : Source)
    (id : Document) : P (w.enlist source id).documents := by
  rcases w.enlist_cases source id with ⟨-, hnew, he⟩ | ⟨-, he⟩ | ⟨-, he⟩ <;> rw [he]
  · exact hP.insert w.documents id hnew h
  · exact hP.filter w.documents _ h
  · exact h

theorem KeptByListing.relist (hP : KeptByListing P) (h : P w.documents) (source : Source)
    (change : Change) : P (w.relist source change).documents := by
  match change with
  | .created id => exact hP.enlist h source id
  | .modified id => exact hP.enlist h source id
  | .removed id => exact hP.filter w.documents _ h
  | .renamed old new =>
    have hdelisted : P (w.delist old).documents := hP.filter w.documents _ h
    exact hP.enlist hdelisted source new

theorem KeptByListing.noticeAll (hP : KeptByListing P) (source : Source) (now : Nat) :
    ∀ (changes : List Change) {w : Watcher}, P w.documents →
      P (w.noticeAll source now changes).documents
  | [], _, h => h
  | change :: changes, w, h => by
    refine KeptByListing.noticeAll hP source now changes (w := w.notice source now change) ?_
    rw [(w.notice_relists source now change).1]
    exact hP.relist h source change

theorem KeptByListing.obeyAll (hP : KeptByListing P) (h : P w.documents)
    (moments : List (Source × Command)) : P (w.obeyAll moments).documents := by
  refine obeyAll_keeps (P := fun w => P w.documents)
    (fun _ source now changes h => hP.noticeAll source now changes h) (fun w after hkeeps h => ?_)
    moments h
  rw [hkeeps.documents]
  exact h

end KeptByListing

/-- No document is listed twice. -/
theorem keptByListing_distinct :
    KeptByListing fun documents => documents.Pairwise fun a b => a.same b = false where
  filter _ _ h := h.filter _
  insert documents id hnew h := by
    have hsymm : ∀ {a b : Document}, a.same b = false → b.same a = false :=
      fun {a b} hab => (b.same_comm a).trans hab
    refine ((List.mergeSort_perm _ _).pairwise_iff hsymm).2 (List.pairwise_append.2
      ⟨h, List.pairwise_singleton _ _, fun known hknown m hm => ?_⟩)
    rw [List.mem_singleton.1 hm]
    exact hsymm (Bool.eq_false_iff.2 (List.any_eq_false.1 hnew known hknown))

theorem isLE_total (a b : Document) : ((compare a b).isLE || (compare b a).isLE) = true := by
  have hswap : compare b a = (compare a b).swap := Std.OrientedCmp.eq_swap
  rw [hswap]
  rcases compare a b <;> rfl

/-- The documents are listed in order. -/
theorem keptByListing_ascending :
    KeptByListing fun documents => documents.Pairwise fun a b => (compare a b).isLE = true where
  filter _ _ h := h.filter _
  insert _ _ _ _ :=
    List.pairwise_mergeSort (fun _ _ _ => Std.TransCmp.isLE_trans) isLE_total _

/-! ### What a change makes of the selection -/

theorem selects_delist (w : Watcher) (id : Document) : (w.delist id).Selects := by
  unfold Selects delist
  simp only []
  generalize w.documents.filter (fun known => !known.same id) = documents
  rcases documents with _ | ⟨first, rest⟩
  · exact .inr ⟨rfl, if_pos (Nat.zero_le _)⟩
  · left
    split
    · exact Nat.sub_lt (Nat.succ_pos _) Nat.one_pos
    · next h => exact Nat.lt_of_not_le h

theorem Selects.enlist (h : w.Selects) (source : Source) (id : Document) :
    (w.enlist source id).Selects := by
  rcases w.enlist_cases source id with ⟨-, -, he⟩ | ⟨-, he⟩ | ⟨-, he⟩ <;> rw [he]
  · have hlength : (inserted w.documents id).length = w.documents.length + 1 := by
      rw [inserted, List.length_mergeSort, List.length_append, List.length_singleton]
    left
    show w.selected < (inserted w.documents id).length
    rcases h with h | ⟨-, h⟩ <;> omega
  · exact w.selects_delist id
  · exact h

theorem Selects.noticeAll (source : Source) (now : Nat) : ∀ (changes : List Change) {w : Watcher},
    w.Selects → (w.noticeAll source now changes).Selects
  | [], _, h => h
  | change :: changes, w, h => by
    refine Selects.noticeAll source now changes (w := w.notice source now change) ?_
    obtain ⟨hd, hs⟩ := w.notice_relists source now change
    have hrelisted : (w.relist source change).Selects :=
      match change with
      | .created id => h.enlist source id
      | .modified id => h.enlist source id
      | .removed id => w.selects_delist id
      | .renamed old new => (w.selects_delist old).enlist source new
    exact (KeepsList.of_eq hd hs).selects hrelisted

theorem Selects.obeyAll (h : w.Selects) (moments : List (Source × Command)) :
    (w.obeyAll moments).Selects :=
  obeyAll_keeps (fun _ source now changes h => h.noticeAll source now changes)
    (fun _ _ hkeeps h => hkeeps.selects h) moments h

/-! ### Which documents are listed -/

def Lists (w : Watcher) (id : Document) : Prop :=
  ∃ m ∈ w.documents, m.same id = true

theorem Lists.congr (h : after.documents = w.documents) (id : Document) :
    after.Lists id ↔ w.Lists id := by
  rw [Lists, Lists, h]

theorem lists_delist (w : Watcher) (m id : Document) :
    (w.delist m).Lists id ↔ w.Lists id ∧ m.same id = false := by
  constructor
  · rintro ⟨known, hk, hsame⟩
    obtain ⟨hmem, hother⟩ := List.mem_filter.1 hk
    refine ⟨⟨known, hmem, hsame⟩, Bool.eq_false_iff.2 fun hm => ?_⟩
    rw [Document.same_trans hsame (Document.same_symm hm)] at hother
    cases hother
  · rintro ⟨⟨known, hmem, hsame⟩, hother⟩
    refine ⟨known, List.mem_filter.2 ⟨hmem, ?_⟩, hsame⟩
    rw [Bool.not_eq_true', Bool.eq_false_iff]
    intro hm
    rw [Document.same_trans (Document.same_symm hm) hsame] at hother
    cases hother

theorem lists_iff_any (w : Watcher) {m : Document} (hsame : m.same id = true) :
    w.Lists id ↔ w.documents.any m.same = true := by
  rw [List.any_eq_true]
  constructor
  · rintro ⟨known, hk, hs⟩
    exact ⟨known, hk, Document.same_trans hsame (Document.same_symm hs)⟩
  · rintro ⟨known, hk, hs⟩
    exact ⟨known, hk, Document.same_trans (Document.same_symm hs) hsame⟩

theorem lists_inserted (w : Watcher) (m id : Document) :
    ({ w with documents := inserted w.documents m } : Watcher).Lists id
      ↔ w.Lists id ∨ m.same id = true := by
  have hmem : ∀ d, d ∈ inserted w.documents m ↔ d ∈ w.documents ∨ d = m := by
    intro d
    rw [inserted, List.mem_mergeSort, List.mem_append, List.mem_singleton]
  constructor
  · rintro ⟨known, hk, hs⟩
    rcases (hmem known).1 hk with hk | rfl
    · exact .inl ⟨known, hk, hs⟩
    · exact .inr hs
  · rintro (⟨known, hk, hs⟩ | hs)
    · exact ⟨known, (hmem known).2 (.inl hk), hs⟩
    · exact ⟨m, (hmem m).2 (.inr rfl), hs⟩

theorem lists_enlist (hsource : source.Alike) (w : Watcher) (m id : Document) :
    (w.enlist source m).Lists id
      ↔ if m.same id = true then source.hasTables id = true else w.Lists id := by
  rcases w.enlist_cases source m with ⟨ht, -, he⟩ | ⟨ht, he⟩ | ⟨ht, he⟩ <;> rw [he]
  · rw [lists_inserted]
    split
    · next hs => simp only [hs, or_true, ← hsource.hasTables_eq hs, ht]
    · next hs => exact or_iff_left hs
  · rw [lists_delist]
    split
    · next hs => simp only [hs, reduceCtorEq, and_false, ← hsource.hasTables_eq hs, ht]
    · next hs => exact and_iff_left (Bool.eq_false_iff.2 hs)
  · split
    · next hs => rw [w.lists_iff_any hs, ← hsource.hasTables_eq hs, ht]
    · exact Iff.rfl

/-- A document that a change mentions is listed by whether it has tables then; the others stay. -/
theorem lists_relist (hsource : source.Alike) (w : Watcher) {change : Change}
    (hgone : ∀ m, change.gone? = some m → m.same id = true → source.hasTables id = false) :
    (w.relist source change).Lists id
      ↔ if ∃ m ∈ change.documents, m.same id = true then source.hasTables id = true
        else w.Lists id := by
  match change with
  | .created m =>
    simp only [Change.documents, List.mem_singleton, exists_eq_left]
    exact lists_enlist hsource w m id
  | .modified m =>
    simp only [Change.documents, List.mem_singleton, exists_eq_left]
    exact lists_enlist hsource w m id
  | .removed m =>
    simp only [Change.documents, List.mem_singleton, exists_eq_left]
    refine (w.lists_delist m id).trans ?_
    split
    · next hs => simp only [hs, reduceCtorEq, and_false, hgone m rfl hs]
    · next hs => exact and_iff_left (Bool.eq_false_iff.2 hs)
  | .renamed old new =>
    simp only [Change.documents, List.mem_cons, List.not_mem_nil, or_false, exists_eq_or_imp,
      exists_eq_left]
    refine (lists_enlist hsource (w.delist old) new id).trans ?_
    by_cases hnew : new.same id = true
    · simp only [hnew, if_true, or_true]
    · rw [if_neg hnew, w.lists_delist]
      split
      · next hs =>
        have hold : old.same id = true := hs.resolve_right hnew
        simp only [hold, reduceCtorEq, and_false, hgone old rfl hold]
      · next hs => exact and_iff_left (Bool.eq_false_iff.2 fun hold => hs (.inl hold))

theorem lists_noticeAll (hsource : source.Alike) (now : Nat) : ∀ (changes : List Change)
    (w : Watcher), (∀ change ∈ changes, ∀ m, change.gone? = some m → m.same id = true →
      source.hasTables id = false) →
    ((w.noticeAll source now changes).Lists id
      ↔ if ∃ m ∈ changes.flatMap Change.documents, m.same id = true
        then source.hasTables id = true else w.Lists id)
  | [], w, _ => by
    rw [if_neg fun ⟨m, hm, _⟩ => List.not_mem_nil hm]
    exact Iff.rfl
  | change :: changes, w, hgone => by
    have hfirst := lists_relist hsource w (hgone change List.mem_cons_self)
    rw [← Lists.congr (w.notice_relists source now change).1] at hfirst
    refine (lists_noticeAll hsource now changes (w.notice source now change)
      fun c hc => hgone c (List.mem_cons_of_mem _ hc)).trans ?_
    simp only [List.flatMap_cons, List.mem_append, or_and_right, exists_or]
    by_cases hrest : ∃ m ∈ changes.flatMap Change.documents, m.same id = true
    · rw [if_pos hrest, if_pos (.inr hrest)]
    · simp only [hrest, or_false, if_false]
      exact hfirst

/-- The list of a watcher that is told of all changes has the documents with tables. -/
theorem lists_obeyAll : ∀ (moments : List (Source × Command)) {source : Source} {w : Watcher},
    (∀ moment ∈ moments, moment.1.Alike) → Accurate source moments →
      (∀ id, w.Lists id ↔ source.Offers id) →
        ∀ id, (w.obeyAll moments).Lists id ↔ (lastSeen source moments).Offers id
  | [], _, _, _, _, h => h
  | (seen, command) :: moments, source, w, hsources, haccurate, h => by
    have hseen : seen.Alike := hsources _ List.mem_cons_self
    have hrest : ∀ moment ∈ moments, moment.1.Alike :=
      fun moment hm => hsources moment (List.mem_cons_of_mem _ hm)
    match command, haccurate with
    | .report now changes, ⟨htells, haccurate⟩ =>
      refine lists_obeyAll moments hrest haccurate fun id => ?_
      refine (lists_noticeAll hseen now changes w fun change hc m hm =>
        htells.hasTables_of_gone hseen hc hm).trans ?_
      split
      · next hmentioned =>
        obtain ⟨m, hm, hsame⟩ := hmentioned
        exact (htells.offers_iff_hasTables hseen hm hsame).symm
      · next hother =>
        have heq : source.text? id = seen.text? id :=
          not_not.1 fun hne => hother (htells.mentions id hne)
        exact (h id).trans (Source.offers_congr heq)
    | .tick now, haccurate =>
      exact lists_obeyAll moments hrest haccurate fun id =>
        (Lists.congr (w.keepsList_tick seen now).documents id).trans (h id)
    | .indexNext, haccurate =>
      exact lists_obeyAll moments hrest haccurate fun id =>
        (Lists.congr (w.keepsList_indexNext seen).documents id).trans (h id)
    | .indexAll, haccurate =>
      exact lists_obeyAll moments hrest haccurate fun id =>
        (Lists.congr (w.keepsList_indexAll seen).documents id).trans (h id)
    | .press key, haccurate =>
      exact lists_obeyAll moments hrest haccurate fun id =>
        (Lists.congr (w.keepsList_press seen key).documents id).trans (h id)

theorem lists_create (engine : Engine) (hsource : source.Alike) (id : Document) :
    (create engine source).Lists id ↔ source.Offers id := by
  constructor
  · rintro ⟨m, hm, hsame⟩
    obtain ⟨hlisted, ht⟩ := List.mem_filter.1 hm
    rw [hsource.hasTables_eq hsame] at ht
    exact ⟨⟨m, hlisted, hsame⟩, ht⟩
  · rintro ⟨⟨m, hlisted, hsame⟩, ht⟩
    rw [← hsource.hasTables_eq hsame] at ht
    exact ⟨m, List.mem_filter.2 ⟨hlisted, ht⟩, hsame⟩

theorem selects_create (engine : Engine) (source : Source) : (create engine source).Selects := by
  unfold Selects create
  rcases source.list.filter source.hasTables with _ | ⟨first, rest⟩
  · exact .inr ⟨rfl, rfl⟩
  · exact .inl (Nat.succ_pos _)

/-- Whatever a watcher is told, the selection is on the list, or at the start of an empty one.  No
document is on the list twice and the list is in order, if that was so of the documents that the
watcher started with.  When every report has told of all changes since the one before, and nothing
has changed since the last one, the list has the documents with tables and no others. -/
theorem listing_stays_valid (engine : Engine) (source : Source)
    (moments : List (Source × Command)) :
    let w := (create engine source).obeyAll moments
    (w.selected < w.documents.length ∨ w.documents = [] ∧ w.selected = 0) ∧
      (source.list.Pairwise (fun a b => a.same b = false) →
        w.documents.Pairwise fun a b => a.same b = false) ∧
      (source.list.Pairwise (fun a b => (compare a b).isLE = true) →
        w.documents.Pairwise fun a b => (compare a b).isLE = true) ∧
      ∀ now : Source, source.Alike → (∀ moment ∈ moments, moment.1.Alike) →
        Accurate source moments → (∀ id, (lastSeen source moments).text? id = now.text? id) →
        ∀ id, (∃ m ∈ w.documents, m.same id = true)
          ↔ (∃ m ∈ now.list, m.same id = true) ∧ now.hasTables id = true := by
  intro w
  refine ⟨(selects_create engine source).obeyAll moments, fun h => ?_, fun h => ?_, ?_⟩
  · exact keptByListing_distinct.obeyAll (keptByListing_distinct.filter _ _ h) moments
  · exact keptByListing_ascending.obeyAll (keptByListing_ascending.filter _ _ h) moments
  · intro now hsource hsources haccurate hreported id
    have hlists := lists_obeyAll moments hsources haccurate (lists_create engine hsource) id
    exact hlists.trans (Source.offers_congr (hreported id))

/-- The second of two documents with tables is selected; it is renamed, the first one loses its
table, and a third one gets one. -/
theorem listing_stays_valid_table_moves :
    let a : Document := ⟨"a.md"⟩
    let b : Document := ⟨"b.md"⟩
    let c : Document := ⟨"c.md"⟩
    let d : Document := ⟨"d.md"⟩
    let table := "| x | 1 |\n|---|---|\n| y | 2 |"
    let before : Contents := .ofList [(a, table), (b, table), (c, "none")]
    let now : Contents := .ofList [(a, "none"), (c, table), (d, table)]
    let moments := [(before.source, .press .down),
      (now.source, .report 0 [.renamed b d, .modified a, .modified c]), (now.source, .tick 600)]
    let w := (create {} before.source).obeyAll moments
    before.source.list.Pairwise (fun a b => a.same b = false) ∧
      before.source.list.Pairwise (fun a b => (compare a b).isLE = true) ∧
      Accurate before.source moments ∧
      (w.selected < w.documents.length ∨ w.documents = [] ∧ w.selected = 0) ∧
      w.documents.Pairwise (fun a b => a.same b = false) ∧
      w.documents.Pairwise (fun a b => (compare a b).isLE = true) ∧
      ∀ id, (∃ m ∈ w.documents, m.same id = true)
        ↔ (∃ m ∈ now.source.list, m.same id = true) ∧ now.source.hasTables id = true := by
  intro a b c d table before now moments w
  have hdistinct : before.source.list.Pairwise fun a b => a.same b = false := by decide +kernel
  have hascending : before.source.list.Pairwise fun a b => (compare a b).isLE = true := by
    decide +kernel
  have htells : Tells before.source now.source [.renamed b d, .modified a, .modified c] := by
    refine ⟨fun id => Tells.mentions_of_listed before.alike now.alike (by decide +kernel), ?_, ?_⟩
    · intro m hm text hr
      rw [Contents.holds_iff, Session.read_source.1 hr]
      rfl
    · intro change hc m hm
      simp only [List.mem_cons, List.not_mem_nil, or_false] at hc
      rcases hc with rfl | rfl | rfl
      · rw [← Option.some.inj hm]
        decide +kernel
      · cases hm
      · cases hm
  have haccurate : Accurate before.source moments := ⟨htells, trivial⟩
  obtain ⟨hselects, hd, ha, hlists⟩ := listing_stays_valid {} before.source moments
  refine ⟨hdistinct, hascending, haccurate, hselects, hd hdistinct, ha hascending, ?_⟩
  refine hlists now.source before.alike ?_ haccurate fun id => rfl
  intro moment hm
  simp only [moments, List.mem_cons, List.not_mem_nil, or_false] at hm
  rcases hm with rfl | rfl | rfl
  · exact before.alike
  · exact now.alike
  · exact now.alike

end Watcher

end ComputedTables
