import ComputedTables.Proofs.Session

/-!
# Every reported edit arrives

In every session whose changes have been reported, a document that was last reported as edited, and
that has been left alone since for the time a watcher waits, has the entry that a fresh engine would
compute for its text; one that was last reported as renamed has it at once, and one that was last
reported as gone has none (`reported_edits_arrive`).  Between the report and the end the document is
not changed, so from then on either its edit is waited for or its entry is that of its text
(`run_waits`), whatever else the watcher does meanwhile.
-/

namespace ComputedTables

open Std (ExtTreeMap)

namespace Session

variable {digest : Text.Digest} {T : String → Prop} {W : Document → Prop} {s : Session}
  {id : Document}

/-- The engine of a session is consistent, and all that the session holds belongs to the run. -/
structure Sound (digest : Text.Digest) (T : String → Prop) (W : Document → Prop) (s : Session) :
    Prop where
  engine : s.watcher.engine.Consistent digest T
  known : s.watcher.Known W
  contents : ∀ (id : Document) text, s.contents[id]? = some text → T text

theorem Sound.within (h : s.Sound digest T W) : s.contents.source.Within T :=
  ⟨fun id text hr => h.contents id text (read_source.1 hr), read_source_of_same s.contents⟩

theorem sound_create {engine : Engine} {contents : Contents} (hengine : engine.Consistent digest T)
    (hdocuments : ∀ id ∈ contents.keys, W id)
    (htexts : ∀ (id : Document) text, contents[id]? = some text → T text) :
    (create engine contents).Sound digest T W := by
  refine ⟨hengine, ⟨fun id hm => hdocuments id (List.mem_of_mem_filter hm), fun b hb => ?_,
    fun id hm => ?_⟩, htexts⟩
  · cases hb
    exact ⟨hdocuments, fun _ hm => by cases hm⟩
  · exact absurd hm ExtTreeMap.not_mem_empty

/-- An event other than a change of the documents lets the watcher move on. -/
theorem Sound.step (hw : World digest T W) (h : s.Sound digest T W) {event : Event}
    (hdocuments : ∀ m ∈ event.documents, W m) (htext : ∀ text, event.text? = some text → T text) :
    (s.step event).Sound digest T W := by
  have hmoved : ∀ {after : Watcher}, Watcher.Moves W s.contents.source s.watcher after →
      Sound digest T W { s with watcher := after } := fun hm =>
    ⟨hm.follows.consistent hw h.within h.engine, hm.known, h.contents⟩
  match event with
  | .put m text =>
    refine ⟨h.engine, h.known, fun id t hg => ?_⟩
    have hg : (s.contents.insert m text)[id]? = some t := hg
    rw [ExtTreeMap.getElem?_insert] at hg
    split at hg
    · cases hg
      exact htext _ rfl
    · exact h.contents id t hg
  | .remove m =>
    refine ⟨h.engine, h.known, fun id t hg => ?_⟩
    have hg : (s.contents.erase m)[id]? = some t := hg
    rw [ExtTreeMap.getElem?_erase] at hg
    split at hg
    · cases hg
    · exact h.contents id t hg
  | .move old new =>
    simp only [Session.step]
    rcases ho : s.contents[old]? with _ | text
    · exact h
    · refine ⟨h.engine, h.known, fun id t hg => ?_⟩
      simp only [ExtTreeMap.getElem?_insert, ExtTreeMap.getElem?_erase] at hg
      split at hg
      · cases hg
        exact h.contents old _ ho
      · split at hg
        · cases hg
        · exact h.contents id t hg
  | .report now changes =>
    exact ⟨Watcher.noticeAll_consistent hw h.within now changes h.engine,
      h.known.noticeAll hw now changes hdocuments, h.contents⟩
  | .tick now =>
    exact ⟨(h.known.tick now).1.consistent hw h.within h.engine, (h.known.tick now).2.1,
      h.contents⟩
  | .indexNext => exact hmoved h.known.indexNext
  | .indexAll => exact hmoved h.known.indexAll
  | .press key => exact hmoved (h.known.press key)

/-- All documents and texts of the events belong to the run. -/
def Inside (T : String → Prop) (W : Document → Prop) (events : List Event) : Prop :=
  ∀ event ∈ events, (∀ m ∈ event.documents, W m) ∧ ∀ text, event.text? = some text → T text

theorem Sound.run (hw : World digest T W) : ∀ (events : List Event) {s : Session},
    s.Sound digest T W → Inside T W events → (s.run events).Sound digest T W
  | [], _, h, _ => h
  | event :: events, _, h, hi => by
    obtain ⟨hdocuments, htext⟩ := hi event List.mem_cons_self
    exact (h.step hw hdocuments htext).run hw events fun e he => hi e (List.mem_cons_of_mem _ he)

theorem Sound.step_delay (h : s.Sound digest T W) (event : Event) :
    (s.step event).watcher.pending.delay = s.watcher.pending.delay := by
  have hmoved : ∀ {after : Watcher}, Watcher.Moves W s.contents.source s.watcher after →
      after.pending.delay = s.watcher.pending.delay := fun hm => congrArg Deadlines.delay hm.pending
  match event with
  | .put .. => rfl
  | .remove _ => rfl
  | .move old new =>
    simp only [Session.step]
    rcases s.contents[old]? with _ | text <;> rfl
  | .report now changes => exact Watcher.noticeAll_delay _ now changes s.watcher
  | .tick now =>
    show (s.watcher.tick s.contents.source now).pending.delay = _
    rw [(h.known.tick now).2.2]
    rfl
  | .indexNext => exact hmoved h.known.indexNext
  | .indexAll => exact hmoved h.known.indexAll
  | .press key => exact hmoved (h.known.press key)

theorem Sound.run_delay (hw : World digest T W) : ∀ (events : List Event) {s : Session},
    s.Sound digest T W → Inside T W events →
      (s.run events).watcher.pending.delay = s.watcher.pending.delay
  | [], _, _, _ => rfl
  | event :: events, _, h, hi => by
    obtain ⟨hdocuments, htext⟩ := hi event List.mem_cons_self
    exact ((h.step hw hdocuments htext).run_delay hw events
      fun e he => hi e (List.mem_cons_of_mem _ he)).trans (h.step_delay event)

/-! ### Documents that an event is not about -/

/-- An event that is not about a document leaves its entry, or lets the engine follow the source. -/
theorem Sound.step_entry (hw : World digest T W) (h : s.Sound digest T W) (hid : W id)
    {event : Event} (hdocuments : ∀ m ∈ event.documents, W m)
    (hspares : ∀ m ∈ event.documents, m.same id = false) :
    (s.step event).watcher.engine.index[id.name]? = s.watcher.engine.index[id.name]? ∨
      s.watcher.engine.Follows W s.contents.source (s.step event).watcher.engine := by
  match event with
  | .put .. => exact .inl rfl
  | .remove _ => exact .inl rfl
  | .move old new =>
    left
    simp only [Session.step]
    rcases s.contents[old]? with _ | text <;> rfl
  | .report now changes =>
    exact .inl (Watcher.noticeAll_bystander hw h.within now hid changes h.engine hdocuments
      hspares).1
  | .tick now => exact .inr (h.known.tick now).1
  | .indexNext => exact .inr h.known.indexNext.follows
  | .indexAll => exact .inr h.known.indexAll.follows
  | .press key => exact .inr (h.known.press key).follows

theorem Sound.step_publishes (hw : World digest T W) (h : s.Sound digest T W) (hid : W id)
    {event : Event} (hdocuments : ∀ m ∈ event.documents, W m)
    (hspares : ∀ m ∈ event.documents, m.same id = false)
    {text : String} (ht : s.contents[id]? = some text)
    (hp : s.watcher.engine.Publishes id.name text) :
    (s.step event).watcher.engine.Publishes id.name text := by
  rcases h.step_entry hw hid hdocuments hspares with hindex | hfollows
  · exact hp.of_index_eq hindex
  · exact hfollows.publishes hw h.within h.engine hid (read_source.2 ht) hp

theorem Sound.step_absent (hw : World digest T W) (h : s.Sound digest T W) (hid : W id)
    {event : Event} (hdocuments : ∀ m ∈ event.documents, W m)
    (hspares : ∀ m ∈ event.documents, m.same id = false)
    (hnone : s.contents[id]? = none) (hi : s.watcher.engine.index[id.name]? = none) :
    (s.step event).watcher.engine.index[id.name]? = none := by
  rcases h.step_entry hw hid hdocuments hspares with hindex | hfollows
  · rw [hindex, hi]
  · refine hfollows.absent hw h.within h.engine hid (fun text hr => ?_) hi
    rw [read_source.1 hr] at hnone
    cases hnone

/-- Waiting for a document goes on until a tick ends it and brings the entry up to date. -/
theorem Sound.step_waits (hw : World digest T W) (h : s.Sound digest T W) (hid : W id)
    {event : Event} (hdocuments : ∀ m ∈ event.documents, W m)
    (hspares : ∀ m ∈ event.documents, m.same id = false)
    {text : String} (ht : s.contents[id]? = some text) {deadline : Nat}
    (hp : s.watcher.pending.deadlines[id]? = some deadline) :
    ((∀ now, event = .tick now → now < deadline) ∧
        (s.step event).watcher.pending.deadlines[id]? = some deadline) ∨
      (s.step event).watcher.engine.Publishes id.name text := by
  have hmoved : ∀ {after : Watcher}, Watcher.Moves W s.contents.source s.watcher after →
      after.pending.deadlines[id]? = some deadline := fun hm => by rw [hm.pending, hp]
  match event with
  | .put .. => exact .inl ⟨(fun _ he => by cases he), hp⟩
  | .remove _ => exact .inl ⟨(fun _ he => by cases he), hp⟩
  | .move old new =>
    refine .inl ⟨(fun _ he => by cases he), ?_⟩
    simp only [Session.step]
    rcases s.contents[old]? with _ | text <;> exact hp
  | .report now changes =>
    refine .inl ⟨(fun _ he => by cases he), ?_⟩
    have := (Watcher.noticeAll_bystander hw h.within now hid changes h.engine hdocuments hspares).2
    exact this.trans hp
  | .tick now =>
    by_cases hnow : deadline ≤ now
    · exact .inr (Watcher.tick_publishes hw h.within h.known h.engine hid (read_source.2 ht) hp
        hnow)
    · refine .inl ⟨fun now' he => ?_, ?_⟩
      · cases he
        omega
      show (s.watcher.tick s.contents.source now).pending.deadlines[id]? = _
      rw [(h.known.tick now).2.2]
      exact Deadlines.takeExpired_keeps hp (by omega)
  | .indexNext => exact .inl ⟨(fun _ he => by cases he), hmoved h.known.indexNext⟩
  | .indexAll => exact .inl ⟨(fun _ he => by cases he), hmoved h.known.indexAll⟩
  | .press key => exact .inl ⟨(fun _ he => by cases he), hmoved (h.known.press key)⟩

/-! ### Reports about a document -/

theorem edited_iff {changes : List Change} : CallsEdited id changes ↔
    ∃ change ∈ changes, ∃ m, change.edited? = some m ∧ m.same id = true := by
  simp only [CallsEdited, Option.any_eq_true]

theorem gone_iff {changes : List Change} : CallsGone id changes ↔
    ∃ change ∈ changes, ∃ m, change.gone? = some m ∧ m.same id = true := by
  simp only [CallsGone, Option.any_eq_true]

theorem renamed_iff {changes : List Change} : CallsRenamed id changes ↔
    ∃ old new, .renamed old new ∈ changes ∧ new.same id = true := by
  constructor
  · rintro ⟨change, hchange, h⟩
    match change, h with
    | .renamed old new, h => exact ⟨old, new, hchange, h⟩
  · rintro ⟨old, new, hchange, h⟩
    exact ⟨.renamed old new, hchange, h⟩

theorem mem_documents_of_edited {change : Change} {m : Document} (h : change.edited? = some m) :
    m ∈ change.documents := by
  match change, h with
  | .created _, rfl => exact List.mem_cons_self
  | .modified _, rfl => exact List.mem_cons_self

theorem mem_documents_of_gone {change : Change} {m : Document} (h : change.gone? = some m) :
    m ∈ change.documents := by
  match change, h with
  | .removed _, rfl => exact List.mem_cons_self
  | .renamed _ _, rfl => exact List.mem_cons_self

variable {now : Nat} {changes : List Change}

theorem Sound.report_edited (hw : World digest T W) (h : s.Sound digest T W) (hid : W id)
    (ha : s.Allows (.report now changes)) (hd : ∀ m ∈ changes.flatMap Change.documents, W m)
    (hc : CallsEdited id changes) :
    (s.step (.report now changes)).watcher.pending.deadlines[id]?
      = some (now + s.watcher.pending.delay) := by
  obtain ⟨change, hchange, m, he, hsame⟩ := edited_iff.1 hc
  obtain ⟨before, -, hdelay, -, hpending⟩ := Watcher.noticeAll_turn hw h.within now hid h.engine hd
    ha.1 hchange (mem_documents_of_edited he) hsame
  rw [← hdelay, ← Watcher.notice_pending he hsame now]
  exact hpending

theorem Sound.report_renamed (hw : World digest T W) (h : s.Sound digest T W) (hid : W id)
    (ha : s.Allows (.report now changes)) (hd : ∀ m ∈ changes.flatMap Change.documents, W m)
    (hc : CallsRenamed id changes) {text : String} (ht : s.contents[id]? = some text) :
    (s.step (.report now changes)).watcher.engine.Publishes id.name text := by
  obtain ⟨old, new, hchange, hsame⟩ := renamed_iff.1 hc
  obtain ⟨before, hconsistent, -, hindex, -⟩ := Watcher.noticeAll_turn hw h.within now hid h.engine
    hd ha.1 hchange (List.mem_cons_of_mem _ List.mem_cons_self) hsame
  have hp : (before.notice s.contents.source now (.renamed old new)).engine.Publishes id.name
      text :=
    Watcher.notice_publishes hw h.within hconsistent hsame (read_source.2 ht) now
  exact hp.of_index_eq hindex

theorem Sound.report_gone (hw : World digest T W) (h : s.Sound digest T W) (hid : W id)
    (ha : s.Allows (.report now changes)) (hd : ∀ m ∈ changes.flatMap Change.documents, W m)
    (hc : CallsGone id changes) :
    (s.step (.report now changes)).watcher.engine.index[id.name]? = none := by
  obtain ⟨change, hchange, m, hg, hsame⟩ := gone_iff.1 hc
  obtain ⟨before, hconsistent, -, hindex, -⟩ := Watcher.noticeAll_turn hw h.within now hid h.engine
    hd ha.1 hchange (mem_documents_of_gone hg) hsame
  have hdocuments : ∀ m ∈ change.documents, W m := fun m hm =>
    hd m (List.mem_flatMap.2 ⟨change, hchange, hm⟩)
  have hapart : change.documents.Pairwise fun a b => a.same b = false := by
    obtain ⟨first, rest, rfl⟩ := List.append_of_mem hchange
    have hpair := ha.1
    rw [List.flatMap_append, List.flatMap_cons] at hpair
    exact (List.pairwise_append.1 (List.pairwise_append.1 hpair).2.1).1
  have hread : ∀ old new, change = .renamed old new →
      ∃ text, s.contents.source.read new = .ok text := by
    rintro old new rfl
    have hfits := (ha.2.2 _ hchange).2
    obtain ⟨text, ht⟩ := Option.isSome_iff_exists.1 (ExtTreeMap.mem_iff_isSome_getElem?.1 hfits)
    exact ⟨text, read_source.2 ht⟩
  rw [← Watcher.notice_gone hw h.within hconsistent hdocuments hapart hread hg hsame now]
  exact hindex

theorem absent_of_gone (ha : s.Allows (.report now changes)) (hc : CallsGone id changes) :
    s.contents[id]? = none := by
  obtain ⟨change, hchange, m, hg, hsame⟩ := gone_iff.1 hc
  have hfits := ha.2.2 change hchange
  have habsent : m ∉ s.contents := by
    match change, hg with
    | .removed _, rfl => exact hfits
    | .renamed _ _, rfl => exact hfits.1
  exact ExtTreeMap.getElem?_eq_none fun hid => habsent (mem_of_same (Document.same_symm hsame) hid)

/-! ### Runs that are not about a document -/

def Spares (id : Document) (events : List Event) : Prop :=
  ∀ event ∈ events, ∀ m ∈ event.documents, m.same id = false

theorem Sound.run_publishes (hw : World digest T W) (hid : W id) {text : String} :
    ∀ (events : List Event) {s : Session}, s.Sound digest T W → Inside T W events →
      Spares id events →
      s.contents[id]? = some text → s.watcher.engine.Publishes id.name text →
        (s.run events).watcher.engine.Publishes id.name text
  | [], _, _, _, _, _, hp => hp
  | event :: events, _, h, hi, hs, ht, hp => by
    obtain ⟨hdocuments, htext⟩ := hi event List.mem_cons_self
    have hspares := hs event List.mem_cons_self
    refine (h.step hw hdocuments htext).run_publishes hw hid events
      (fun e he => hi e (List.mem_cons_of_mem _ he)) (fun e he => hs e (List.mem_cons_of_mem _ he))
      ?_ (h.step_publishes hw hid hdocuments hspares ht hp)
    rw [getElem?_step hspares, ht]

theorem Sound.run_absent (hw : World digest T W) (hid : W id) :
    ∀ (events : List Event) {s : Session}, s.Sound digest T W → Inside T W events →
      Spares id events →
      s.contents[id]? = none → s.watcher.engine.index[id.name]? = none →
        (s.run events).watcher.engine.index[id.name]? = none
  | [], _, _, _, _, _, hn => hn
  | event :: events, _, h, hi, hs, ht, hn => by
    obtain ⟨hdocuments, htext⟩ := hi event List.mem_cons_self
    have hspares := hs event List.mem_cons_self
    refine (h.step hw hdocuments htext).run_absent hw hid events
      (fun e he => hi e (List.mem_cons_of_mem _ he)) (fun e he => hs e (List.mem_cons_of_mem _ he))
      ?_ (h.step_absent hw hid hdocuments hspares ht hn)
    rw [getElem?_step hspares, ht]

/-- What is waited for is up to date after a run in which the wait comes to its end. -/
theorem Sound.run_waits (hw : World digest T W) (hid : W id) {text : String} {deadline later : Nat}
    (hlater : deadline ≤ later) : ∀ (events : List Event) {s : Session}, s.Sound digest T W →
      Inside T W events → Spares id events → s.contents[id]? = some text →
        s.watcher.pending.deadlines[id]? = some deadline → .tick later ∈ events →
          (s.run events).watcher.engine.Publishes id.name text
  | [], _, _, _, _, _, _, hm => (List.not_mem_nil hm).elim
  | event :: events, s, h, hi, hs, ht, hp, hm => by
    obtain ⟨hdocuments, htext⟩ := hi event List.mem_cons_self
    have hspares := hs event List.mem_cons_self
    have hsound := h.step hw hdocuments htext
    have hi' : Inside T W events := fun e he => hi e (List.mem_cons_of_mem _ he)
    have hs' : Spares id events := fun e he => hs e (List.mem_cons_of_mem _ he)
    have ht' : (s.step event).contents[id]? = some text := by rw [getElem?_step hspares, ht]
    rcases h.step_waits hw hid hdocuments hspares ht hp with ⟨hearly, hp'⟩ | hpublishes
    · refine hsound.run_waits hw hid hlater events hi' hs' ht' hp' ?_
      rcases List.mem_cons.1 hm with he | hm
      · have := hearly later he.symm
        omega
      · exact hm
    · exact hsound.run_publishes hw hid events hi' hs' ht' hpublishes

/-! ### After the last report about a document -/

variable {after : List Event}

/-- After the last report that announces a document, the document stays as it is. -/
theorem Sound.last_report (hw : World digest T W) (h : s.Sound digest T W)
    (hl : s.Legal (.report now changes :: after)) (hi : Inside T W (.report now changes :: after))
    (hend : (s.run (.report now changes :: after)).unreported = []) {text : String}
    (ht : (s.run (.report now changes :: after)).contents[id]? = some text)
    (hlast : ∀ event ∈ after, ¬ event.Announces id) :
    (s.step (.report now changes)).Sound digest T W ∧ Spares id after ∧
      (s.step (.report now changes)).contents[id]? = some text := by
  obtain ⟨hdocuments, htext⟩ := hi _ List.mem_cons_self
  rw [run_cons] at hend ht
  have hmentions := not_mentions_of_present hl.2 hend hlast (by simp [ht])
  have hspares : Spares id after := spares_of_reported after hl.2 hend hmentions
  exact ⟨h.step hw hdocuments htext, hspares, by rw [← ht, getElem?_run after _ hspares]⟩

theorem Sound.renamed_arrives (hw : World digest T W) (h : s.Sound digest T W)
    (hl : s.Legal (.report now changes :: after)) (hi : Inside T W (.report now changes :: after))
    (hend : (s.run (.report now changes :: after)).unreported = []) {text : String}
    (ht : (s.run (.report now changes :: after)).contents[id]? = some text)
    (hlast : ∀ event ∈ after, ¬ event.Announces id) (hc : CallsRenamed id changes) :
    (s.run (.report now changes :: after)).watcher.engine.Publishes id.name text := by
  have hd := (hi _ List.mem_cons_self).1
  obtain ⟨hsound, hspares, htext⟩ := h.last_report hw hl hi hend ht hlast
  have hid : W id := by
    obtain ⟨old, new, hchange, hsame⟩ := renamed_iff.1 hc
    exact hw.same new id (hd new (List.mem_flatMap.2 ⟨_, hchange,
      List.mem_cons_of_mem _ List.mem_cons_self⟩)) hsame
  exact hsound.run_publishes hw hid after (fun e he => hi e (List.mem_cons_of_mem _ he)) hspares
    htext (h.report_renamed hw hid hl.1 hd hc htext)

theorem Sound.edited_arrives (hw : World digest T W) (h : s.Sound digest T W)
    (hl : s.Legal (.report now changes :: after)) (hi : Inside T W (.report now changes :: after))
    (hend : (s.run (.report now changes :: after)).unreported = []) {text : String}
    (ht : (s.run (.report now changes :: after)).contents[id]? = some text)
    (hlast : ∀ event ∈ after, ¬ event.Announces id) (hc : CallsEdited id changes) {later : Nat}
    (htick : .tick later ∈ after) (hlater : now + s.watcher.pending.delay ≤ later) :
    (s.run (.report now changes :: after)).watcher.engine.Publishes id.name text := by
  have hd := (hi _ List.mem_cons_self).1
  obtain ⟨hsound, hspares, htext⟩ := h.last_report hw hl hi hend ht hlast
  have hid : W id := by
    obtain ⟨change, hchange, m, he, hsame⟩ := edited_iff.1 hc
    exact hw.same m id (hd m (List.mem_flatMap.2 ⟨_, hchange, mem_documents_of_edited he⟩)) hsame
  exact hsound.run_waits hw hid hlater after (fun e he => hi e (List.mem_cons_of_mem _ he)) hspares
    htext (h.report_edited hw hid hl.1 hd hc) htick

theorem Sound.gone_stays_gone (hw : World digest T W) (h : s.Sound digest T W)
    (hl : s.Legal (.report now changes :: after)) (hi : Inside T W (.report now changes :: after))
    (hend : (s.run (.report now changes :: after)).unreported = [])
    (hlast : ∀ event ∈ after, ¬ event.Mentions id) (hc : CallsGone id changes) :
    (s.run (.report now changes :: after)).watcher.engine.index[id.name]? = none := by
  obtain ⟨hd, htext⟩ := hi _ List.mem_cons_self
  rw [run_cons] at hend
  have hspares : Spares id after := spares_of_reported after hl.2 hend hlast
  have hid : W id := by
    obtain ⟨change, hchange, m, hg, hsame⟩ := gone_iff.1 hc
    exact hw.same m id (hd m (List.mem_flatMap.2 ⟨_, hchange, mem_documents_of_gone hg⟩)) hsame
  have habsent : s.contents[id]? = none := absent_of_gone hl.1 hc
  exact (h.step hw hd htext).run_absent hw hid after (fun e he => hi e (List.mem_cons_of_mem _ he))
    hspares habsent (h.report_gone hw hid hl.1 hd hc)

/-! ### The documents and texts of a run -/

/-- The texts that documents have in a run. -/
def IsText (contents : Contents) (events : List Event) (text : String) : Prop :=
  (∃ id : Document, contents[id]? = some text) ∨ text ∈ events.filterMap Event.text?

/-- The documents that there are at the start of a run, or that its events are about. -/
def documents (contents : Contents) (events : List Event) : List Document :=
  contents.keys ++ events.flatMap Event.documents

/-- A document of a run, however its path is written. -/
def IsDocument (contents : Contents) (events : List Event) (id : Document) : Prop :=
  ∃ m ∈ documents contents events, m.same id = true

variable {contents : Contents} {events : List Event}

theorem world_of_run (hT : SelfContained digest (IsText contents events))
    (hnames : ∀ a ∈ documents contents events, ∀ b ∈ documents contents events,
      a.name = b.name → a.same b = true) :
    World digest (IsText contents events) (IsDocument contents events) := by
  refine ⟨hT, ?_, ?_⟩
  · rintro a b ⟨m, hm, hsame⟩ hab
    exact ⟨m, hm, Document.same_trans hsame hab⟩
  · rintro a b ⟨m, hm, hma⟩ ⟨n, hn, hnb⟩ hname
    rw [← Document.name_eq_of_same hma, ← Document.name_eq_of_same hnb] at hname
    exact Document.same_trans (Document.same_symm hma)
      (Document.same_trans (hnames m hm n hn hname) hnb)

theorem inside_run : Inside (IsText contents events) (IsDocument contents events) events := by
  refine fun event he => ⟨fun m hm => ⟨m, ?_, ?_⟩, fun text ht => .inr ?_⟩
  · exact List.mem_append_right _ (List.mem_flatMap.2 ⟨event, he, hm⟩)
  · exact beq_self_eq_true m.parts
  · exact List.mem_filterMap.2 ⟨event, he, ht⟩

theorem sound_start {engine : Engine} (hpolicy : engine.policy = .clear)
    (hforgotten : ∀ document, (engine.memoryOf document).text = none ∧
      (engine.memoryOf document).tables = ∅) :
    (create engine contents).Sound engine.digest (IsText contents events)
      (IsDocument contents events) :=
  sound_create (Engine.consistent_of_forgotten rfl hpolicy hforgotten)
    (fun id hm => ⟨id, List.mem_append_left _ hm, beq_self_eq_true id.parts⟩)
    fun id _ ht => .inl ⟨id, ht⟩

theorem Sound.agrees_with_fresh (hw : World digest T W) {text : String} (ht : T text)
    (hp : s.watcher.engine.Publishes id.name text) :
    entriesAgree s.watcher.engine.index[id.name]?
      (({ digest } : Engine).recalculate id.name text none false).2.index[id.name]? = true := by
  have hfresh : ({ digest } : Engine).Consistent digest T :=
    Engine.consistent_of_forgotten rfl rfl (Engine.forgotten_of_memory_empty rfl)
  exact entriesAgree_trans hp (entriesAgree_symm (hfresh.publishes hw ht id.name false))

/-- No reported edit is lost: a document that has been left alone for long enough after it was last
reported as edited, or was last reported as renamed, has the entry that a fresh engine computes for
its text, and one that was last reported as gone has none. -/
theorem reported_edits_arrive {engine : Engine} (hpolicy : engine.policy = .clear)
    (hforgotten : ∀ document, (engine.memoryOf document).text = none ∧
      (engine.memoryOf document).tables = ∅)
    {contents : Contents} {events : List Event}
    (hT : SelfContained engine.digest (IsText contents events))
    (hnames : ∀ a ∈ documents contents events, ∀ b ∈ documents contents events,
      a.name = b.name → a.same b = true)
    (hlegal : (create engine contents).Legal events)
    (hreported : ((create engine contents).run events).unreported = [])
    (before : List Event) (now : Nat) (changes : List Change) (after : List Event)
    (hevents : events = before ++ .report now changes :: after) (id : Document) :
    let final := (create engine contents).run events
    let fresh : Engine := { digest := engine.digest }
    (∀ text, final.contents[id]? = some text → (∀ event ∈ after, ¬ event.Announces id) →
      (CallsRenamed id changes ∨ CallsEdited id changes ∧ ∃ later, .tick later ∈ after ∧
        now + (create engine contents).watcher.pending.delay ≤ later) →
      entriesAgree final.watcher.engine.index[id.name]?
        (fresh.recalculate id.name text none false).2.index[id.name]? = true) ∧
    (CallsGone id changes → (∀ event ∈ after, ¬ event.Mentions id) →
      final.watcher.engine.index[id.name]? = none) := by
  intro final fresh
  have hw := world_of_run hT hnames
  have hinside : Inside (IsText contents events) (IsDocument contents events) events := inside_run
  have hstart : (create engine contents).Sound engine.digest (IsText contents events)
      (IsDocument contents events) := sound_start hpolicy hforgotten
  have hbefore : Inside (IsText contents events) (IsDocument contents events) before :=
    fun e he => hinside e (hevents ▸ List.mem_append_left _ he)
  have hrest : Inside (IsText contents events) (IsDocument contents events)
      (.report now changes :: after) :=
    fun e he => hinside e (hevents ▸ List.mem_append_right _ he)
  have hfinal : final
      = ((create engine contents).run before).run (.report now changes :: after) := by
    show (create engine contents).run events = _
    rw [hevents, run_append]
  have hsound := hstart.run hw before hbefore
  have hend : (((create engine contents).run before).run
      (.report now changes :: after)).unreported = [] := by
    rw [← hfinal]
    exact hreported
  have hl : ((create engine contents).run before).Legal (.report now changes :: after) := by
    rw [hevents] at hlegal
    exact ((legal_append before _ _).1 hlegal).2
  rw [hfinal]
  constructor
  · intro text ht hlast hcalls
    have htext := (hsound.run hw _ hrest).contents id text ht
    refine Sound.agrees_with_fresh hw htext ?_
    rcases hcalls with hrenamed | ⟨hedited, later, htick, hlater⟩
    · exact hsound.renamed_arrives hw hl hrest hend ht hlast hrenamed
    · rw [← hstart.run_delay hw before hbefore] at hlater
      exact hsound.edited_arrives hw hl hrest hend ht hlast hedited htick hlater
  · exact fun hgone hlast => hsound.gone_stays_gone hw hl hrest hend hlast hgone

theorem put_and_moved_documents_arrive :
    let a : Document := ⟨"a.md"⟩
    let b : Document := ⟨"b.md"⟩
    let c : Document := ⟨"c.md"⟩
    let text := "| x | 1 |\n| y | =SUM(col) |"
    let events : List Event := [.put a text, .put b text, .report 0 [.created a, .created b],
      .move b c, .report 100 [.renamed b c], .tick 500]
    let engine : Engine := { digest := Text.rolling }
    let final := (create engine ∅).run events
    (create engine ∅).Legal events ∧ final.unreported = [] ∧
      entriesAgree final.watcher.engine.index[a.name]?
        (engine.recalculate a.name text none false).2.index[a.name]? = true ∧
      entriesAgree final.watcher.engine.index[c.name]?
        (engine.recalculate c.name text none false).2.index[c.name]? = true ∧
      final.watcher.engine.index[b.name]? = none := by
  intro a b c text events engine
  have hmem : ∀ t, IsText ∅ events t → t ∈ [text] := by
    rintro t (⟨id, h⟩ | h)
    · rw [ExtTreeMap.getElem?_empty] at h
      cases h
    · have htexts : events.filterMap Event.text? = [text, text] := rfl
      rw [htexts] at h
      simpa using h
  have hT : SelfContained Text.rolling _ :=
    .of_list hmem (by decide +kernel) (by decide +kernel) (by decide +kernel)
  have hnames : ∀ x ∈ documents ∅ events, ∀ y ∈ documents ∅ events,
      x.name = y.name → x.same y = true := by decide +kernel
  have hlegal : (create engine ∅).Legal events := by decide +kernel
  have hreported : ((create engine ∅).run events).unreported = [] := by decide +kernel
  have ha : ((create engine ∅).run events).contents[a]? = some text := by decide +kernel
  have hc : ((create engine ∅).run events).contents[c]? = some text := by decide +kernel
  have hdelay : 0 + (create engine ∅).watcher.pending.delay ≤ 500 := by decide +kernel
  have harrive := reported_edits_arrive rfl (Engine.forgotten_of_memory_empty rfl) hT hnames hlegal
    hreported
  have hcreated := harrive [.put a text, .put b text] 0 [.created a, .created b]
    [.move b c, .report 100 [.renamed b c], .tick 500] rfl a
  have hmoved := harrive
    [.put a text, .put b text, .report 0 [.created a, .created b], .move b c] 100 [.renamed b c]
    [.tick 500] rfl
  have hlast : ∀ event ∈ [.move b c, .report 100 [.renamed b c], Event.tick 500],
      ¬ event.Announces a := by
    intro event he
    simp only [List.mem_cons, List.not_mem_nil, or_false] at he
    rcases he with rfl | rfl | rfl
    · exact fun h => h
    · show ¬ (CallsEdited a [.renamed b c] ∨ CallsRenamed a [.renamed b c])
      unfold CallsEdited CallsRenamed
      decide +kernel
    · exact fun h => h
  have hquiet : ∀ id, ∀ event ∈ [Event.tick 500], ¬ event.Mentions id ∧ ¬ event.Announces id := by
    intro id event he
    rw [List.mem_singleton.1 he]
    exact ⟨fun h => h, fun h => h⟩
  have hedited : CallsEdited a [.created a, .created b] :=
    ⟨.created a, List.mem_cons_self, beq_self_eq_true a.parts⟩
  have hrenamed : CallsRenamed c [.renamed b c] :=
    ⟨.renamed b c, List.mem_cons_self, beq_self_eq_true c.parts⟩
  have hgone : CallsGone b [.renamed b c] :=
    ⟨.renamed b c, List.mem_cons_self, beq_self_eq_true b.parts⟩
  refine ⟨hlegal, hreported, ?_, ?_, ?_⟩
  · exact hcreated.1 text ha hlast (.inr ⟨hedited, 500, by simp, hdelay⟩)
  · exact (hmoved c).1 text hc (fun e he => (hquiet c e he).2) (.inl hrenamed)
  · exact (hmoved b).2 hgone fun e he => (hquiet b e he).1

end Session

end ComputedTables
