import ComputedTables.Proofs.BulkRounds
import ComputedTables.Proofs.DeadlineHistory
import ComputedTables.Proofs.Follows
import ComputedTables.Watch.Key

/-!
# What a watcher does between reports

As long as it is told of no change, a watcher only lets its engine follow the source: it indexes,
acts on keys and recalculates documents whose edits have come to an end.  None of this starts or
drops a wait (`Moves`), except that a tick ends those that are over, and then the entry of each
document that was waited for is what its text publishes (`tick_publishes`).
-/

namespace ComputedTables

open Std (ExtTreeMap)

variable {W : Document → Prop} {source : Source}

/-! ### Bulk passes -/

namespace Bulk

/-- All documents that a bulk pass has still to visit are documents of the run. -/
structure Known (W : Document → Prop) (b : Bulk) : Prop where
  ahead : ∀ id ∈ b.ahead, W id
  again : ∀ id ∈ b.again, W id

theorem visited_follows {id : Document} (hid : W id) (engine : Engine) :
    engine.Follows W source (visited source engine id) := by
  unfold visited
  rcases hr : source.read id with failure | text
  · exact .refl
  · simp only []
    split
    · exact Engine.Follows.refl.recalculate id text true hid hr
    · exact .refl

theorem revisit_follows {id : Document} (hid : W id) (engine : Engine) :
    engine.Follows W source (revisit source engine id) := by
  unfold revisit
  rcases hr : source.read id with failure | text
  · exact .refl
  · exact (Engine.Follows.refl.invalidate id.name).recalculate id text true hid hr

theorem foldl_follows {f : Engine → Document → Engine}
    (hf : ∀ id, W id → ∀ engine, Engine.Follows W source engine (f engine id)) :
    ∀ (ids : List Document) (engine : Engine), (∀ id ∈ ids, W id) →
      engine.Follows W source (ids.foldl f engine)
  | [], _, _ => .refl
  | id :: ids, engine, h =>
    (hf id (h id List.mem_cons_self) engine).trans
      (foldl_follows hf ids _ fun id hm => h id (List.mem_cons_of_mem _ hm))

theorem Known.step {b : Bulk} (h : b.Known W) (engine : Engine) :
    (b.step source engine).1.Known W ∧
      engine.Follows W source (b.step source engine).2 := by
  have hfirst : ∀ id ∈ b.firstBatch, W id := fun id hm => h.ahead id (List.mem_of_mem_take hm)
  have hsecond : ∀ id ∈ b.secondBatch, W id := fun id hm =>
    h.again id (b.secondBatch_append ▸ List.mem_append_left _ hm)
  rw [step_eq]
  refine ⟨⟨fun id hm => h.ahead id (List.mem_of_mem_drop hm), fun id hm => ?_⟩, ?_⟩
  · rcases List.mem_append.1 hm with hm | hm
    · exact h.again id (List.mem_of_mem_drop hm)
    · exact hfirst id (List.mem_of_mem_filter hm)
  · exact (foldl_follows (fun id hid e => visited_follows hid e) _ engine hfirst).trans
      (foldl_follows (fun id hid e => revisit_follows hid e) _ _ hsecond)

end Bulk

/-! ### Waits -/

namespace Deadlines

variable {d : Deadlines Document} {id : Document} {now deadline : Nat}

theorem mem_of_takeExpired (h : id ∈ (d.takeExpired now).1) : id ∈ d.deadlines :=
  ExtTreeMap.mem_of_mem_filter (ExtTreeMap.mem_of_mem_keys h)

theorem mem_of_takeExpired_left (h : id ∈ (d.takeExpired now).2.deadlines) : id ∈ d.deadlines :=
  ExtTreeMap.mem_of_mem_filter h

/-- A document whose deadline has come is taken out, by whichever path it was noted. -/
theorem takeExpired_due (h : d.deadlines[id]? = some deadline) (hd : deadline ≤ now) :
    ∃ k ∈ (d.takeExpired now).1, id.same k = true := by
  obtain ⟨k, hk, he⟩ := givesOut_iff.2 ⟨deadline, h, hd⟩
  exact ⟨k, hk, Document.compare_eq_iff_same.1 (Std.OrientedCmp.eq_symm he)⟩

theorem takeExpired_keeps (h : d.deadlines[id]? = some deadline) (hd : now < deadline) :
    (d.takeExpired now).2.deadlines[id]? = some deadline := by
  show (d.deadlines.filter _)[id]? = _
  rw [ExtTreeMap.getElem?_filter, h]
  simp [hd]

end Deadlines

namespace Watcher

/-- All documents that a watcher holds are documents of the run. -/
structure Known (W : Document → Prop) (w : Watcher) : Prop where
  documents : ∀ id ∈ w.documents, W id
  bulk : ∀ b, w.bulk = some b → b.Known W
  pending : ∀ id ∈ w.pending.deadlines, W id

/-- A watcher lets its engine follow the source, and keeps waiting for what it waits for. -/
structure Moves (W : Document → Prop) (source : Source) (w after : Watcher) : Prop where
  follows : w.engine.Follows W source after.engine
  known : after.Known W
  pending : after.pending = w.pending

variable {w middle after : Watcher}

theorem Moves.trans (h : Moves W source w middle) (h' : Moves W source middle after) :
    Moves W source w after :=
  ⟨h.follows.trans h'.follows, h'.known, h'.pending.trans h.pending⟩

theorem Known.refl (h : w.Known W) : Moves W source w w :=
  ⟨.refl, h, rfl⟩

theorem Known.of_eq (h : w.Known W) (hd : after.documents = w.documents)
    (hb : after.bulk = w.bulk) (hp : after.pending = w.pending) : after.Known W := by
  refine ⟨?_, ?_, ?_⟩
  · rw [hd]
    exact h.documents
  · rw [hb]
    exact h.bulk
  · rw [hp]
    exact h.pending

/-- Whatever else is changed, a watcher moves on if its engine follows the source. -/
theorem Known.moves (h : w.Known W) (hf : w.engine.Follows W source after.engine)
    (hd : after.documents = w.documents) (hb : after.bulk = w.bulk)
    (hp : after.pending = w.pending) : Moves W source w after :=
  ⟨hf, h.of_eq hd hb hp, hp⟩

/-- Changing what is shown leaves everything else. -/
theorem Known.shown (h : w.Known W) (he : after.engine = w.engine)
    (hd : after.documents = w.documents) (hb : after.bulk = w.bulk)
    (hp : after.pending = w.pending) : Moves W source w after :=
  h.moves (he ▸ .refl) hd hb hp

theorem Known.indexNext (h : w.Known W) : Moves W source w (w.indexNext source) := by
  unfold Watcher.indexNext
  rcases hb : w.bulk with _ | bulk
  · exact h.refl
  · have hstep : (bulk.step source w.engine).1.Known W ∧
        w.engine.Follows W source (bulk.step source w.engine).2 := (h.bulk bulk hb).step w.engine
    obtain ⟨hknown, hfollows⟩ := hstep
    simp only []
    split
    · exact ⟨hfollows, ⟨h.documents, (fun b hb => by cases hb), h.pending⟩, rfl⟩
    · refine ⟨hfollows, ⟨h.documents, fun b hb => ?_, h.pending⟩, rfl⟩
      cases hb
      exact hknown

theorem Known.indexTimes : ∀ (n : Nat) {w : Watcher}, w.Known W →
    Moves W source w (Watcher.indexTimes source n w)
  | 0, _, h => h.refl
  | n + 1, _, h => h.indexNext.trans (Known.indexTimes n h.indexNext.known)

theorem Known.indexAll (h : w.Known W) : Moves W source w (w.indexAll source) := by
  unfold Watcher.indexAll
  split
  · exact h.refl
  · exact Known.indexTimes _ h

theorem Known.settle (h : w.Known W) {id : Document} (hid : W id) :
    Moves W source w (Watcher.settle source w id) := by
  unfold Watcher.settle
  rcases hr : source.read id with failure | text
  · exact h.refl
  · simp only [record]
    split <;> exact h.moves (Engine.Follows.refl.recalculate id text true hid hr) rfl rfl rfl

theorem Known.foldl_settle : ∀ (ids : List Document) {w : Watcher}, w.Known W →
    (∀ id ∈ ids, W id) → Moves W source w (ids.foldl (Watcher.settle source) w)
  | [], _, h, _ => h.refl
  | id :: ids, w, h, hids => by
    have hfirst : Moves W source w (Watcher.settle source w id) :=
      h.settle (hids id List.mem_cons_self)
    exact hfirst.trans (Known.foldl_settle ids hfirst.known
      fun id hm => hids id (List.mem_cons_of_mem _ hm))

theorem Known.current (h : w.Known W) {id : Document} (hc : w.current? = some id) : W id :=
  h.documents id (List.mem_of_getElem? hc)

theorem Known.refreshSelected (h : w.Known W) : Moves W source w (w.refreshSelected source) := by
  unfold Watcher.refreshSelected
  rcases hc : w.current? with _ | id
  · exact h.refl
  · simp only [say, record]
    rcases hr : source.read id with failure | text
    · exact h.shown rfl rfl rfl rfl
    · exact h.moves ((Engine.Follows.refl.invalidate id.name).recalculate id text false
        (h.current hc) hr) rfl rfl rfl

theorem Known.tableToExport (h : w.Known W) :
    Moves W source w (w.tableToExport source).2 := by
  unfold Watcher.tableToExport
  rcases hc : w.current? with _ | id
  · exact h.refl
  · simp only []
    rcases hr : source.read id with failure | text
    · exact h.refl
    · exact h.moves (Engine.Follows.refl.recalculate id text false (h.current hc) hr) rfl rfl rfl

theorem Known.writeExport (h : w.Known W) : Moves W source w (w.writeExport source) := by
  have ht : Moves W source w (w.tableToExport source).2 := h.tableToExport
  unfold Watcher.writeExport
  rcases he : w.tableToExport source with ⟨_ | ⟨name, lines⟩, after⟩ <;> rw [he] at ht
  · exact ht.trans (ht.known.shown rfl rfl rfl rfl)
  · simp only []
    split <;> exact ht.trans (ht.known.shown rfl rfl rfl rfl)

theorem Known.selectBelow (h : w.Known W) : Moves W source w w.selectBelow := by
  unfold Watcher.selectBelow
  split <;> exact h.shown rfl rfl rfl rfl

theorem Known.selectAbove (h : w.Known W) : Moves W source w w.selectAbove := by
  unfold Watcher.selectAbove
  split <;> exact h.shown rfl rfl rfl rfl

/-- A key changes what is shown, or recalculates the selected document. -/
theorem Known.press (h : w.Known W) (key : Key) : Moves W source w (w.press source key) := by
  have hcleared : Moves W source w { w with status := none } := h.shown rfl rfl rfl rfl
  unfold Watcher.press
  split
  · unfold Watcher.pressInList
    simp only []
    split
    · exact hcleared.trans hcleared.known.selectAbove
    · exact hcleared.trans hcleared.known.selectAbove
    · exact hcleared.trans hcleared.known.selectBelow
    · exact hcleared.trans hcleared.known.selectBelow
    · exact h.shown rfl rfl rfl rfl
    · exact h.shown rfl rfl rfl rfl
    · exact hcleared.trans hcleared.known.refreshSelected
    · exact hcleared.trans hcleared.known.writeExport
    · exact h.shown rfl rfl rfl rfl
    · exact h.shown rfl rfl rfl rfl
    · exact hcleared
  · unfold Watcher.pressInHelp
    split <;> exact h.shown rfl rfl rfl rfl

/-! ### Ticks -/

/-- The watcher that no longer waits for what is due. -/
def expire (w : Watcher) (now : Nat) : Watcher :=
  { w with pending := (w.pending.takeExpired now).2 }

theorem tick_eq (w : Watcher) (source : Source) (now : Nat) : w.tick source now
    = ((w.pending.takeExpired now).1.foldl (Watcher.settle source) (w.expire now)).indexNext
      source :=
  rfl

theorem Known.expire (h : w.Known W) (now : Nat) : (w.expire now).Known W :=
  ⟨h.documents, h.bulk, fun id hm => h.pending id (Deadlines.mem_of_takeExpired_left hm)⟩

theorem Known.due (h : w.Known W) (now : Nat) : ∀ id ∈ (w.pending.takeExpired now).1, W id :=
  fun id hm => h.pending id (Deadlines.mem_of_takeExpired hm)

/-- A tick lets the engine follow the source and ends the waits that are over. -/
theorem Known.tick (h : w.Known W) (now : Nat) :
    w.engine.Follows W source (w.tick source now).engine ∧ (w.tick source now).Known W ∧
      (w.tick source now).pending = (w.pending.takeExpired now).2 := by
  have hsettled : Moves W source (w.expire now)
      ((w.pending.takeExpired now).1.foldl (Watcher.settle source) (w.expire now)) :=
    (h.expire now).foldl_settle _ (h.due now)
  have hmoved := hsettled.trans hsettled.known.indexNext
  rw [tick_eq]
  exact ⟨hmoved.follows, hmoved.known, hmoved.pending⟩

variable {digest : Text.Digest} {T : String → Prop}

theorem settle_publishes (hw : World digest T W) (hc : w.engine.Consistent digest T) {id : Document}
    {text : String} (ht : T text) (hr : source.read id = .ok text) :
    (Watcher.settle source w id).engine.Publishes id.name text := by
  have hp := hc.publishes hw ht id.name true
  unfold Watcher.settle
  rw [hr]
  simp only []
  split <;> exact hp

/-- A document whose wait is over is up to date after a tick. -/
theorem tick_publishes (hw : World digest T W) (hs : source.Within T) (h : w.Known W)
    (hc : w.engine.Consistent digest T) {id : Document} {text : String} (hid : W id)
    (hr : source.read id = .ok text) {deadline now : Nat}
    (hd : w.pending.deadlines[id]? = some deadline) (hnow : deadline ≤ now) :
    (w.tick source now).engine.Publishes id.name text := by
  obtain ⟨k, hk, hsame⟩ := Deadlines.takeExpired_due hd hnow
  have hwk := hw.same id k hid hsame
  have hrk := hs.same id k text hsame hr
  have hdue := h.due now
  obtain ⟨before, after, hsplit⟩ := List.append_of_mem hk
  rw [hsplit] at hdue
  rw [tick_eq, hsplit, List.foldl_append, List.foldl_cons, Document.name_eq_of_same hsame]
  -- what is settled before leaves the engine consistent, and what comes after keeps the entry
  have hbefore : Moves W source (w.expire now)
      (before.foldl (Watcher.settle source) (w.expire now)) :=
    (h.expire now).foldl_settle before fun id hm => hdue id (List.mem_append_left _ hm)
  have hconsistent := hbefore.follows.consistent hw hs hc
  have hturn := settle_publishes hw hconsistent (hs.text k text hrk) hrk
  have hsettled : Moves W source _ (Watcher.settle source _ k) := hbefore.known.settle hwk
  have hafter : Moves W source _ _ :=
    (hsettled.known.foldl_settle after fun id hm => hdue id
      (List.mem_append_right _ (List.mem_cons_of_mem _ hm)))
  have hrest := hafter.trans hafter.known.indexNext
  exact hrest.follows.publishes hw hs (hsettled.follows.consistent hw hs hconsistent) hwk hrk hturn

end Watcher

end ComputedTables
