import ComputedTables.Proofs.Notices

/-!
# Sessions

A session is a watcher with the documents it watches.  These change in any way between the events
that the watcher is given, which see the documents as they are then; a report may only be given if
it tells of every document that has changed since the last one, mentions each document at most once
and fits what there is (`Session.Allows`).  In a session whose changes have all been reported, a
document that no report mentions has not changed (`spares_of_reported`).
-/

namespace ComputedTables

open Std (ExtTreeMap)

/-- The documents there are, with their texts. -/
abbrev Contents := ExtTreeMap Document String

def Contents.source (contents : Contents) : Source where
  list := contents.keys
  read id :=
    match contents[id]? with
    | some text => .ok text
    | none => .error (.missing id.name)

/-- What can happen in a session: changes of the documents, and what the watcher is told to do. -/
inductive Event where
  /-- A document is created, or gets another text. -/
  | put (id : Document) (text : String)
  | remove (id : Document)
  | move (old new : Document)
  | report (now : Nat) (changes : List Change)
  | tick (now : Nat)
  | indexNext
  | indexAll
  | press (key : Key)
  deriving DecidableEq, Repr

/-- The documents that an event changes or mentions. -/
def Event.documents : Event → List Document
  | .put id _ => [id]
  | .remove id => [id]
  | .move old new => [old, new]
  | .report _ changes => changes.flatMap Change.documents
  | _ => []

/-- The text that an event gives to a document. -/
def Event.text? : Event → Option String
  | .put _ text => some text
  | _ => none

/-- A report calls a document edited. -/
def CallsEdited (id : Document) (changes : List Change) : Prop :=
  ∃ change ∈ changes, change.edited?.any (·.same id) = true

/-- A report calls a document the new name of one that was renamed. -/
def CallsRenamed (id : Document) (changes : List Change) : Prop :=
  ∃ change ∈ changes, change.renamed?.any (·.same id) = true

/-- A report calls a document gone. -/
def CallsGone (id : Document) (changes : List Change) : Prop :=
  ∃ change ∈ changes, change.gone?.any (·.same id) = true

/-- An event is a report that calls a document edited, or the new name of one that was renamed. -/
def Event.Announces (id : Document) : Event → Prop
  | .report _ changes => CallsEdited id changes ∨ CallsRenamed id changes
  | _ => False

/-- An event is a report that mentions a document. -/
def Event.Mentions (id : Document) : Event → Prop
  | .report _ changes => ∃ m ∈ changes.flatMap Change.documents, m.same id = true
  | _ => False

/-- A watcher, the documents it watches, and those that have changed since the last report. -/
structure Session where
  watcher : Watcher
  contents : Contents
  unreported : List Document := []

namespace Session

/-- The session in which an engine starts to watch documents. -/
def create (engine : Engine) (contents : Contents) : Session where
  watcher := .create engine contents.source
  contents := contents

def step (s : Session) : Event → Session
  | .put id text =>
    { s with contents := s.contents.insert id text, unreported := id :: s.unreported }
  | .remove id => { s with contents := s.contents.erase id, unreported := id :: s.unreported }
  | .move old new =>
    match s.contents[old]? with
    | some text =>
      { s with
        contents := (s.contents.erase old).insert new text
        unreported := old :: new :: s.unreported }
    | none => s
  | .report now changes =>
    { s with watcher := s.watcher.noticeAll s.contents.source now changes, unreported := [] }
  | .tick now => { s with watcher := s.watcher.tick s.contents.source now }
  | .indexNext => { s with watcher := s.watcher.indexNext s.contents.source }
  | .indexAll => { s with watcher := s.watcher.indexAll s.contents.source }
  | .press key => { s with watcher := s.watcher.press s.contents.source key }

def run (s : Session) (events : List Event) : Session :=
  events.foldl step s

/-- A change fits the documents there are: what is edited is there, and what is gone is not. -/
def Fits (contents : Contents) : Change → Prop
  | .created id => id ∈ contents
  | .modified id => id ∈ contents
  | .removed id => id ∉ contents
  | .renamed old new => old ∉ contents ∧ new ∈ contents

/-- Only a document that is there can be removed or moved.  A report tells of all changes since the
last one, each document is mentioned at most once, and what it says is so. -/
def Allows (s : Session) : Event → Prop
  | .remove id => id ∈ s.contents
  | .move old _ => old ∈ s.contents
  | .report _ changes =>
    (changes.flatMap Change.documents).Pairwise (fun a b => a.same b = false) ∧
      (∀ id ∈ s.unreported, ∃ m ∈ changes.flatMap Change.documents, m.same id = true) ∧
      ∀ change ∈ changes, Fits s.contents change
  | _ => True

/-- Every event of a run is allowed when it comes. -/
def Legal : Session → List Event → Prop
  | _, [] => True
  | s, event :: events => s.Allows event ∧ (s.step event).Legal events

/-! Whether a run is legal can be computed. -/

instance (contents : Contents) : (change : Change) → Decidable (Fits contents change)
  | .created id => inferInstanceAs (Decidable (id ∈ contents))
  | .modified id => inferInstanceAs (Decidable (id ∈ contents))
  | .removed id => inferInstanceAs (Decidable (id ∉ contents))
  | .renamed old new => inferInstanceAs (Decidable (old ∉ contents ∧ new ∈ contents))

instance (s : Session) : (event : Event) → Decidable (s.Allows event)
  | .remove id => inferInstanceAs (Decidable (id ∈ s.contents))
  | .move old _ => inferInstanceAs (Decidable (old ∈ s.contents))
  | .report _ changes => inferInstanceAs (Decidable
      ((changes.flatMap Change.documents).Pairwise (fun a b => a.same b = false) ∧
        (∀ id ∈ s.unreported, ∃ m ∈ changes.flatMap Change.documents, m.same id = true) ∧
        ∀ change ∈ changes, Fits s.contents change))
  | .put .. | .tick _ | .indexNext | .indexAll | .press _ => inferInstanceAs (Decidable True)

def decidableLegal : (s : Session) → (events : List Event) → Decidable (s.Legal events)
  | _, [] => inferInstanceAs (Decidable True)
  | s, event :: events =>
    have := decidableLegal (s.step event) events
    inferInstanceAs (Decidable (s.Allows event ∧ (s.step event).Legal events))

instance (s : Session) (events : List Event) : Decidable (s.Legal events) :=
  decidableLegal s events

variable {s : Session} {id : Document}

theorem run_cons (s : Session) (event : Event) (events : List Event) :
    s.run (event :: events) = (s.step event).run events :=
  rfl

theorem run_append (s : Session) (before after : List Event) :
    s.run (before ++ after) = (s.run before).run after :=
  List.foldl_append

theorem legal_append : ∀ (before after : List Event) (s : Session),
    s.Legal (before ++ after) ↔ s.Legal before ∧ (s.run before).Legal after
  | [], _, _ => ⟨fun h => ⟨trivial, h⟩, fun h => h.2⟩
  | event :: before, after, s => by
    have ih := legal_append before after (s.step event)
    exact ⟨fun h => ⟨⟨h.1, (ih.1 h.2).1⟩, (ih.1 h.2).2⟩, fun h => ⟨h.1.1, ih.2 ⟨h.1.2, h.2⟩⟩⟩

/-! ### The documents of a session -/

theorem read_source {contents : Contents} {text : String} :
    contents.source.read id = .ok text ↔ contents[id]? = some text := by
  unfold Contents.source
  simp only []
  rcases contents[id]? with _ | t <;> simp

theorem getElem?_of_same (contents : Contents) {a b : Document} (h : a.same b = true) :
    contents[a]? = contents[b]? :=
  ExtTreeMap.getElem?_congr (Document.compare_eq_iff_same.2 h)

theorem read_source_of_same (contents : Contents) (a b : Document) (text : String)
    (h : a.same b = true) (hr : contents.source.read a = .ok text) :
    contents.source.read b = .ok text := by
  rw [read_source] at hr ⊢
  rw [← getElem?_of_same contents h, hr]

theorem mem_of_same {contents : Contents} {a b : Document} (h : a.same b = true)
    (ha : a ∈ contents) : b ∈ contents :=
  (ExtTreeMap.mem_congr (Document.compare_eq_iff_same.2 h)).1 ha

/-- An event that neither changes nor mentions a document leaves it as it is. -/
theorem getElem?_step {event : Event} (h : ∀ m ∈ event.documents, m.same id = false) :
    (s.step event).contents[id]? = s.contents[id]? := by
  have hne : ∀ m ∈ event.documents, ¬ compare m id = .eq := by
    intro m hm he
    rw [Document.compare_eq_iff_same, h m hm] at he
    cases he
  match event with
  | .put m text =>
    show (s.contents.insert m text)[id]? = _
    rw [ExtTreeMap.getElem?_insert, if_neg (hne m List.mem_cons_self)]
  | .remove m =>
    show (s.contents.erase m)[id]? = _
    rw [ExtTreeMap.getElem?_erase, if_neg (hne m List.mem_cons_self)]
  | .move old new =>
    simp only [step]
    rcases s.contents[old]? with _ | text
    · rfl
    · simp only []
      rw [ExtTreeMap.getElem?_insert, if_neg (hne new (List.mem_cons_of_mem _ List.mem_cons_self)),
        ExtTreeMap.getElem?_erase, if_neg (hne old List.mem_cons_self)]
  | .report .. => rfl
  | .tick _ => rfl
  | .indexNext => rfl
  | .indexAll => rfl
  | .press _ => rfl

theorem getElem?_run : ∀ (events : List Event) (s : Session),
    (∀ event ∈ events, ∀ m ∈ event.documents, m.same id = false) →
      (s.run events).contents[id]? = s.contents[id]?
  | [], _, _ => rfl
  | event :: events, s, h =>
    (getElem?_run events (s.step event) fun e hm => h e (List.mem_cons_of_mem _ hm)).trans
      (getElem?_step (h event List.mem_cons_self))

/-! ### Changes and reports -/

def Unreported (s : Session) (id : Document) : Prop :=
  ∃ m ∈ s.unreported, m.same id = true

/-- What has changed stays unreported until a report mentions it. -/
theorem Unreported.step (h : s.Unreported id) {event : Event} (ha : s.Allows event)
    (hm : ¬ event.Mentions id) : (s.step event).Unreported id := by
  obtain ⟨m, hu, hsame⟩ := h
  match event with
  | .put .. => exact ⟨m, List.mem_cons_of_mem _ hu, hsame⟩
  | .remove _ => exact ⟨m, List.mem_cons_of_mem _ hu, hsame⟩
  | .move old new =>
    simp only [Session.step]
    rcases s.contents[old]? with _ | text
    · exact ⟨m, hu, hsame⟩
    · exact ⟨m, List.mem_cons_of_mem _ (List.mem_cons_of_mem _ hu), hsame⟩
  | .report now changes =>
    obtain ⟨m', hm', hsame'⟩ := ha.2.1 m hu
    exact absurd ⟨m', hm', Document.same_trans hsame' hsame⟩ hm
  | .tick _ => exact ⟨m, hu, hsame⟩
  | .indexNext => exact ⟨m, hu, hsame⟩
  | .indexAll => exact ⟨m, hu, hsame⟩
  | .press _ => exact ⟨m, hu, hsame⟩

theorem Unreported.run : ∀ (events : List Event) {s : Session}, s.Unreported id → s.Legal events →
    (∀ event ∈ events, ¬ event.Mentions id) → (s.run events).Unreported id
  | [], _, h, _, _ => h
  | event :: events, _, h, hl, hm =>
    Unreported.run events (h.step hl.1 (hm event List.mem_cons_self)) hl.2
      fun e he => hm e (List.mem_cons_of_mem _ he)

/-- An event about a document is a report that mentions it, or a change that is not yet reported. -/
theorem mentions_or_unreported {event : Event} (ha : s.Allows event) {m : Document}
    (hm : m ∈ event.documents) (hsame : m.same id = true) :
    event.Mentions id ∨ (s.step event).Unreported id := by
  match event with
  | .put _ _ =>
    rw [List.mem_singleton.1 hm] at hsame
    exact .inr ⟨_, List.mem_cons_self, hsame⟩
  | .remove _ =>
    rw [List.mem_singleton.1 hm] at hsame
    exact .inr ⟨_, List.mem_cons_self, hsame⟩
  | .move old new =>
    obtain ⟨text, ht⟩ := Option.isSome_iff_exists.1 (ExtTreeMap.mem_iff_isSome_getElem?.1 ha)
    right
    simp only [step, ht]
    refine ⟨m, ?_, hsame⟩
    show m ∈ [old, new] ++ s.unreported
    exact List.mem_append_left _ hm
  | .report .. => exact .inl ⟨m, hm, hsame⟩

/-- When everything has been reported, what no report mentions has not been changed. -/
theorem spares_of_reported : ∀ (events : List Event) {s : Session}, s.Legal events →
    (s.run events).unreported = [] → (∀ event ∈ events, ¬ event.Mentions id) →
      ∀ event ∈ events, ∀ m ∈ event.documents, m.same id = false
  | [], _, _, _, _ => fun _ he => (List.not_mem_nil he).elim
  | event :: events, s, hl, hend, hm => by
    rw [run_cons] at hend
    have hrest : ∀ e ∈ events, ¬ e.Mentions id := fun e he => hm e (List.mem_cons_of_mem _ he)
    have ih := spares_of_reported events hl.2 hend hrest
    intro e he m hd
    rcases List.mem_cons.1 he with rfl | he
    · rw [Bool.eq_false_iff]
      intro hsame
      rcases mentions_or_unreported hl.1 hd hsame with h | h
      · exact hm e List.mem_cons_self h
      · obtain ⟨m', hu, -⟩ := h.run events hl.2 hrest
        rw [hend] at hu
        cases hu
    · exact ih e he m hd

/-- A report that mentions a document without announcing it says that it is not there. -/
theorem absent_of_mentions {event : Event} (ha : s.Allows event) (hm : event.Mentions id)
    (hn : ¬ event.Announces id) : s.contents[id]? = none := by
  match event with
  | .report now changes =>
    obtain ⟨m, hmem, hsame⟩ := hm
    obtain ⟨change, hchange, hd⟩ := List.mem_flatMap.1 hmem
    have hfits := ha.2.2 change hchange
    have habsent : m ∉ s.contents → s.contents[id]? = none := fun h =>
      ExtTreeMap.getElem?_eq_none fun hid => h (mem_of_same (Document.same_symm hsame) hid)
    match change with
    | .created _ =>
      rw [List.mem_singleton.1 hd] at hsame
      exact absurd (.inl ⟨_, hchange, hsame⟩) hn
    | .modified _ =>
      rw [List.mem_singleton.1 hd] at hsame
      exact absurd (.inl ⟨_, hchange, hsame⟩) hn
    | .removed _ =>
      rw [← List.mem_singleton.1 hd] at hfits
      exact habsent hfits
    | .renamed old new =>
      rcases List.mem_cons.1 hd with rfl | hd
      · exact habsent hfits.1
      · rw [List.mem_singleton.1 hd] at hsame
        exact absurd (.inr ⟨_, hchange, hsame⟩) hn

/-- A document that is not there, or has changed, and that no report announces is not there when
everything has been reported. -/
theorem absent_of_unannounced : ∀ (events : List Event) {s : Session}, s.Legal events →
    (s.run events).unreported = [] → (∀ event ∈ events, ¬ event.Announces id) →
      (s.contents[id]? = none ∨ s.Unreported id) → (s.run events).contents[id]? = none
  | [], s, _, hend, _, h => by
    rcases h with h | ⟨m, hu, -⟩
    · exact h
    · have hend : s.unreported = [] := hend
      rw [hend] at hu
      cases hu
  | event :: events, s, hl, hend, hn, h => by
    refine absent_of_unannounced events hl.2 hend (fun e he => hn e (List.mem_cons_of_mem _ he)) ?_
    by_cases hm : event.Mentions id
    · left
      have habsent := absent_of_mentions hl.1 hm (hn event List.mem_cons_self)
      match event, hm with
      | .report .., _ => exact habsent
    · rcases h with h | h
      · by_cases hd : ∃ m ∈ event.documents, m.same id = true
        · obtain ⟨m, hd, hsame⟩ := hd
          rcases mentions_or_unreported hl.1 hd hsame with h | h
          · exact absurd h hm
          · exact .inr h
        · left
          rw [getElem?_step fun m hm => Bool.eq_false_iff.2 fun hs => hd ⟨m, hm, hs⟩]
          exact h
      · exact .inr (h.step hl.1 hm)

/-- The last report that announces a document that is there is the last one that mentions it. -/
theorem not_mentions_of_present {events : List Event} (hl : s.Legal events)
    (hend : (s.run events).unreported = []) (hn : ∀ event ∈ events, ¬ event.Announces id)
    (hp : (s.run events).contents[id]? ≠ none) : ∀ event ∈ events, ¬ event.Mentions id := by
  intro event he hm
  obtain ⟨before, after, rfl⟩ := List.append_of_mem he
  rw [legal_append] at hl
  have habsent := absent_of_mentions hl.2.1 hm (hn event he)
  rw [run_append] at hend hp
  refine hp (absent_of_unannounced after hl.2.2 hend (fun e hm => hn e ?_) (.inl ?_))
  · exact List.mem_append_right _ (List.mem_cons_of_mem _ hm)
  · match event, hm with
    | .report .., _ => exact habsent

end Session

end ComputedTables
