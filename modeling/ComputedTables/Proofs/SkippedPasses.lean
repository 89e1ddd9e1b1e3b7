import ComputedTables.Proofs.Provenance
import ComputedTables.Proofs.StoreFollows
import Mathlib.Data.Fintype.EquivFin

/-!
# Passes that are skipped

A quiet pass is skipped if the last pass over the document was over a text with the same digest.
If that one was complete, all tables of the text are current, and their lines have been computed
from just these tables, as far as digests tell texts apart (`processed_of_unchanged`).  Two things
can be missing.  A pass with the cursor in a table notes the text too, and what it leaves for later
is not made up for (`skipped_leaves_table`).  And however digests are taken, some texts have the
same one, so that a text is taken for another one (`exists_skipped_collision`).
-/

namespace ComputedTables

/-- One of the actions brings the text. -/
def Brings (actions : List Action) (text : String) : Prop :=
  ∃ action ∈ actions, action.text? = some text

/-- None of the texts can be taken for another one: where it has the same digest it is the same, and
so are its tables. -/
structure TellsApart (digest : Text.Digest) (T : String → Prop) (text : String) : Prop where
  texts : ∀ other, T other → digest other = digest text → other = text
  tables : ∀ other, T other → ∀ source ∈ formulaTables other, ∀ span ∈ formulaTables text,
    source.digest digest = span.digest digest → source.lines = span.lines

namespace Engine

variable {T : String → Prop} {I : Index → Prop} {engine start : Engine} {document text : String}

/-! ### Under which indices a run computes -/

theorem Traces.mem {moments : List Engine} {after : Engine} (h : engine.Traces moments after) :
    after ∈ engine :: moments := by
  induction h with
  | done => exact List.mem_cons_self
  | tick _ _ ih => exact List.mem_cons_of_mem _ ih

theorem passOver?_mem {action : Action} {p : PassStart}
    (h : engine.passOver? document action = some p) :
    p.engine ∈ engine :: engine.moments action := by
  rcases (passOver?_cases h).2 with he | ⟨old, rfl, he⟩
  · rw [he]
    exact List.mem_cons_self
  · rw [he]
    exact List.mem_cons_of_mem _ List.mem_cons_self

theorem Grounded.actAll : ∀ (actions : List Action) {engine : Engine}, engine.Grounded T I →
    (∀ text, Brings actions text → T text) →
      (∀ past ∈ engine :: engine.momentsAll actions, I past.index) →
        (engine.actAll actions).Grounded T I
  | [], _, h, _, _ => h
  | action :: actions, engine, h, htext, hindex => by
    have hfirst : ∀ past ∈ engine :: engine.moments action, I past.index := by
      intro past hp
      rcases List.mem_cons.1 hp with rfl | hp
      · exact hindex _ List.mem_cons_self
      · exact hindex past (List.mem_cons_of_mem _ (List.mem_append_left _ hp))
    have hact := h.act action (fun text ht => htext text ⟨action, List.mem_cons_self, ht⟩)
      fun document p hp => hfirst _ (passOver?_mem hp)
    refine Grounded.actAll actions hact (fun text ⟨other, ho, ht⟩ =>
      htext text ⟨other, List.mem_cons_of_mem _ ho, ht⟩) fun past hp => ?_
    rcases List.mem_cons.1 hp with rfl | hp
    · exact hfirst _ (traces_act engine action).mem
    · exact hindex past (List.mem_cons_of_mem _ (List.mem_append_right _ hp))

/-! ### What the last pass has left -/

theorem skips_of_unchanged {cursor : Option Nat} {quiet : Bool}
    (h : (engine.recalculate document text cursor quiet).1.unchanged = true) :
    engine.skips document text quiet = true := by
  by_contra hs
  rw [recalculate_of_not_skips (Bool.eq_false_iff.2 hs), publish_eq] at h
  cases h

/-- If a quiet pass over a text is skipped, the last pass over the document was over a text with the
same digest, and what is remembered of the tables is what that pass has left. -/
theorem lastPass?_of_skips (hstart : start.Fresh) (actions : List Action)
    (h : (start.actAll actions).skips document text true = true) :
    ∃ last, start.lastPass? document actions = some last ∧
      start.digest last.text = start.digest text ∧
      ((start.actAll actions).memoryOf document).tables = (last.pass document).memory.tables := by
  have htext : ((start.actAll actions).memoryOf document).text = some (start.digest text) := by
    unfold skips at h
    rw [Bool.true_and, digest_actAll] at h
    exact eq_of_beq h
  rcases memoryOf_actAll hstart document actions with hforgotten | ⟨last, hlast, hmemory⟩
  · rw [hforgotten.1] at htext
    cases htext
  · refine ⟨last, hlast, ?_, hmemory.tables⟩
    have hnoted := (last.engine.pass_covers document last.text last.scope).noted
    rw [lastPass?_digest actions hlast] at hnoted
    exact Option.some.inj ((hmemory.text.trans hnoted).symm.trans htext)

theorem lastPass?_brings : ∀ (actions : List Action) {engine : Engine} {last : PassStart},
    engine.lastPass? document actions = some last → Brings actions last.text
  | [], _, _, h => nomatch h
  | action :: actions, engine, last, h => by
    unfold lastPass? at h
    rcases Option.or_eq_some_iff.1 h with hlater | ⟨-, hfirst⟩
    · obtain ⟨other, ho, ht⟩ := lastPass?_brings actions hlater
      exact ⟨other, List.mem_cons_of_mem _ ho, ht⟩
    · exact ⟨action, List.mem_cons_self, (passOver?_cases hfirst).1⟩

theorem complete_iff_current {p : PassStart} {m : DocumentMemory}
    (h : m.tables = (p.pass document).memory.tables) : (p.pass document).complete = true ↔
      ∀ span ∈ formulaTables p.text, (m.current? p.engine.digest span).isSome = true := by
  have hcovers := p.engine.pass_covers document p.text p.scope
  have hcomplete : (p.pass document).complete = _ := hcovers.complete
  rw [hcomplete, List.all_eq_true]
  refine forall₂_congr fun span hs => ?_
  rw [← hcovers.current? hs, DocumentMemory.current?_congr (m := m) (congrArg (·[span.start]?) h)]
  rfl

/-- When a quiet pass is skipped after a run, all tables of the text are current if and only if the
last pass over the document was complete.  The lines of each are then those that have been computed
from it, under the index of some moment of the run. -/
theorem processed_of_unchanged (hstart : start.Fresh) (actions : List Action)
    (hunchanged : ((start.actAll actions).recalculate document text none true).1.unchanged = true) :
    let engine := start.actAll actions
    ∃ last, start.lastPass? document actions = some last ∧
      engine.digest last.text = engine.digest text ∧
      ((last.pass document).complete = true ↔ ∀ span ∈ formulaTables last.text,
        ((engine.memoryOf document).current? engine.digest span).isSome = true) ∧
      (TellsApart engine.digest (Brings actions) text → (last.pass document).complete = true →
        ∀ span ∈ formulaTables text, ∃ past ∈ start :: start.momentsAll actions,
          engine.computedLines? document span.start
            = some (computeTable past.index.lookup engine.formatter span.lines).lines) := by
  intro engine
  obtain ⟨last, hlast, hdigest, htables⟩ :=
    lastPass?_of_skips hstart actions (skips_of_unchanged hunchanged)
  have hkept : engine.digest = start.digest := digest_actAll actions start
  have hcurrent := complete_iff_current htables
  rw [lastPass?_digest actions hlast, ← hkept] at hcurrent
  rw [← hkept] at hdigest
  refine ⟨last, hlast, hdigest, hcurrent, fun happart hcomplete span hspan => ?_⟩
  have hsame : last.text = text := happart.texts last.text (lastPass?_brings actions hlast) hdigest
  obtain ⟨table, htable⟩ := Option.isSome_iff_exists.1 (hcurrent.1 hcomplete span (hsame ▸ hspan))
  obtain ⟨hremembered, hsource⟩ := current?_eq_some htable
  have hgrounded : engine.Grounded (Brings actions)
      fun index => ∃ past ∈ start :: start.momentsAll actions, past.index = index :=
    (grounded_of_fresh hstart).actAll actions (fun _ => id) fun past hp => ⟨past, hp, rfl⟩
  obtain ⟨other, source, index, hother, hs, -, ⟨past, hpast, rfl⟩, rfl⟩ :=
    hgrounded document span.start table hremembered
  have hlines : source.lines = span.lines :=
    happart.tables other hother source hs span hspan hsource
  refine ⟨past, hpast, ?_⟩
  unfold computedLines?
  rw [hremembered, ← hlines]
  rfl

theorem skipped_leaves_table :
    let text := "| a | 1 |\n| b | =SUM(col) |\n\n| c | 2 |\n| d | =SUM(col) |"
    let start : Engine := { digest := Text.rolling }
    let engine := start.actAll [.recalculate "d" text (some 0) true]
    (engine.recalculate "d" text none true).1.unchanged = true ∧
      ∃ span ∈ formulaTables text, engine.computedLines? "d" span.start = none := by
  decide +kernel

theorem processed_of_unchanged_scoped_pass :
    let before := "|a|1|\n|b|=2|\n\n|a|3|\n|b|=4|"
    let text := "|a|5|\n|b|=2|\n\n|a|3|\n|b|=4|"
    let actions : List Action := [.recalculate "d" before none false,
      .recalculate "d" text (some 0) true, .forget "e"]
    let start : Engine := { digest := Text.rolling }
    let engine := start.actAll actions
    start.Fresh ∧ (engine.recalculate "d" text none true).1.unchanged = true ∧
      ∀ span ∈ formulaTables text, ∃ past ∈ start :: start.momentsAll actions,
        engine.computedLines? "d" span.start
          = some (computeTable past.index.lookup engine.formatter span.lines).lines := by
  intro before text actions start engine
  have hfresh : start.Fresh := forgotten_of_memory_empty rfl
  have hkept : engine.digest = Text.rolling := digest_actAll actions start
  have hinput : (engine.recalculate "d" text none true).1.unchanged = true ∧
      ∀ span ∈ formulaTables text,
        ((engine.memoryOf "d").current? Text.rolling span).isSome = true := by
    decide +kernel
  have happart : TellsApart Text.rolling (Brings actions) text := by
    have hbrings : ∀ other, Brings actions other → other ∈ [before, text] := by
      intro other hother
      simpa [Brings, actions, Action.text?, eq_comm] using hother
    have htexts : ∀ other ∈ [before, text], Text.rolling other = Text.rolling text →
        other = text := by decide +kernel
    have htables : ∀ other ∈ [before, text], ∀ source ∈ formulaTables other,
        ∀ span ∈ formulaTables text, source.digest Text.rolling = span.digest Text.rolling →
          source.lines = span.lines := by
      decide +kernel
    exact ⟨fun other ho => htexts other (hbrings other ho),
      fun other ho => htables other (hbrings other ho)⟩
  clear_value actions text
  obtain ⟨last, hlast, hdigest, hcurrent, hlines⟩ := processed_of_unchanged hfresh actions hinput.1
  rw [hkept] at hdigest hcurrent hlines
  have hsame := happart.texts last.text (lastPass?_brings actions hlast) hdigest
  exact ⟨hfresh, hinput.1, hlines happart (hcurrent.2 (hsame ▸ hinput.2))⟩

end Engine

/-! ### Texts with one digest -/

/-- A table below empty lines. -/
def lowTable (above : Nat) : String :=
  Text.unlines (List.replicate above "" ++ ["| a | =1 |", "| b | 2 |"])

theorem lines_lowTable (above : Nat) :
    Text.lines (lowTable above) = List.replicate above "" ++ ["| a | =1 |", "| b | 2 |"] := by
  refine Text.lines_unlines (by simp) fun line hl => ?_
  rcases List.mem_append.1 hl with hl | hl
  · rw [List.eq_of_mem_replicate hl]
    exact List.not_mem_nil
  · exact (by decide : ∀ line ∈ ["| a | =1 |", "| b | 2 |"], '\n' ∉ line.toList) line hl

theorem tablesFrom_empty_lines (lines : List String) : ∀ (above next : Nat),
    tablesFrom next [] (List.replicate above "" ++ lines) = tablesFrom (next + above) [] lines
  | 0, _ => rfl
  | above + 1, next => by
    rw [List.replicate_succ, List.cons_append, tablesFrom, if_neg (by decide),
      tablesFrom_empty_lines lines above, Nat.add_right_comm]
    rfl

theorem formulaTables_lowTable (above : Nat) :
    formulaTables (lowTable above) = [⟨above, ["| a | =1 |", "| b | 2 |"]⟩] := by
  have htable : tablesFrom above [] ["| a | =1 |", "| b | 2 |"]
      = [⟨above, ["| a | =1 |", "| b | 2 |"]⟩] := by
    have hfirst : isBarred "| a | =1 |" = true := by decide
    have hsecond : isBarred "| b | 2 |" = true := by decide
    unfold tablesFrom tablesFrom tablesFrom
    rw [if_pos hfirst, if_pos hsecond]
    rfl
  unfold formulaTables tables
  rw [lines_lowTable, tablesFrom_empty_lines, Nat.zero_add, htable]
  rfl

namespace Engine

/-- For some text, a quiet pass is skipped though no table of it has been computed. -/
theorem exists_skipped_collision (engine : Engine) (document : String) : ∃ text other,
    let after := (engine.recalculate document other none false).2
    (after.recalculate document text none true).1.unchanged = true ∧
      ∃ span ∈ formulaTables text, after.computedLines? document span.start = none := by
  -- there are only finitely many digests
  obtain ⟨above, other, hne, hdigest⟩ :=
    Finite.exists_ne_map_eq_of_infinite fun above => engine.digest (lowTable above)
  refine ⟨lowTable above, lowTable other, ?_⟩
  obtain ⟨-, -, -, hmemory⟩ :=
    publish_frame engine document (engine.pass document (lowTable other) none)
  have hcovers := engine.pass_covers document (lowTable other) none
  rw [recalculate_loud]
  dsimp only
  have hkept := digest_publish engine document (engine.pass document (lowTable other) none)
  generalize (engine.publish document (engine.pass document (lowTable other) none)).2 = after
    at hmemory hkept
  have hself := hmemory document
  rw [if_pos rfl] at hself
  constructor
  · rw [recalculate_of_skips]
    unfold skips
    rw [hself, hcovers.noted, hkept, ← hdigest, Bool.true_and]
    exact beq_self_eq_true _
  · rw [formulaTables_lowTable]
    refine ⟨_, List.mem_singleton_self _, ?_⟩
    unfold computedLines?
    rw [hself, hcovers.outside]
    · rfl
    · rw [formulaTables_lowTable]
      rintro span hs -
      rw [List.mem_singleton.1 hs]
      exact hne.symm

end Engine

end ComputedTables
