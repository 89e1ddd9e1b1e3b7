import ComputedTables.Proofs.Actions
import ComputedTables.Proofs.IndexChanges

/-!
# The store follows the index

A save stores the index of its moment or fails and leaves the store alone, so at every moment of a
run the store holds the index of that moment or of an earlier one (`Traces.stored`).  A
recalculation tries a save exactly if it changes the entry of its document, and so does forgetting
one; a rename tries another save when the entry has moved and is not stored yet.  As long as no save
fails, the store therefore holds the index whenever an action is over, and a save that worked
brings it back at once (`store_follows_index`).
-/

namespace ComputedTables.Engine

/-- The store holds the index. -/
def Saved (engine : Engine) : Prop :=
  engine.store.contents = engine.index

variable {engine middle after : Engine} {document text : String}

/-! ### One save -/

theorem persist_contents (engine : Engine) :
    engine.persist.2.Saved ∨ engine.persist.2.store.contents = engine.store.contents := by
  show (engine.store.save engine.index).2.contents = engine.index ∨
    (engine.store.save engine.index).2.contents = engine.store.contents
  unfold Store.save
  split
  · exact .inr rfl
  · exact .inl rfl

theorem saved_of_persist (h : engine.persist.1 = true) : engine.persist.2.Saved := by
  unfold persist Store.save at h ⊢
  dsimp only at h ⊢
  split at h
  · cases h
  · rw [if_neg (by assumption)]
    rfl

theorem persist_fails (h : engine.persist.1 = false) :
    engine.store.saveFails engine.store.attempts = true := by
  unfold persist Store.save at h
  dsimp only at h
  split at h
  · assumption
  · cases h

theorem persist_frame (engine : Engine) :
    engine.persist.2.index = engine.index ∧
      engine.persist.2.store.saveFails = engine.store.saveFails ∧
      engine.persist.2.store.attempts = engine.store.attempts + 1 := by
  refine ⟨rfl, ?_⟩
  show (engine.store.save engine.index).2.saveFails = _ ∧
    (engine.store.save engine.index).2.attempts = _
  unfold Store.save
  split <;> exact ⟨rfl, rfl⟩

/-! ### Moments -/

/-- The moments at which a changed index is taken in: it is changed, then a save is tried. -/
def adoptMoments (engine : Engine) : Option Index → List Engine
  | none => []
  | some index => [{ engine with index }, (engine.adopt (some index)).2]

/-- The moments of a recalculation: the pass is over, then its variables are published. -/
def recalculateMoments (engine : Engine) (document text : String) (cursor : Option Nat)
    (quiet : Bool) : List Engine :=
  if engine.skips document text quiet then []
  else
    let pass := engine.pass document text (scopeOf text cursor quiet)
    let remembered := engine.remember document pass.memory
    remembered :: remembered.adoptMoments (engine.changedBy? document pass)

/-- The moments of an action at which the index or the store may have changed. -/
def moments (engine : Engine) : Action → List Engine
  | .recalculate document text cursor quiet =>
    engine.recalculateMoments document text cursor quiet
  | .render document text => engine.recalculateMoments document text none false
  | .rename old new text =>
    let moved := (engine.invalidate old).moveEntry old new
    let recalculated := moved.2.recalculate new text none false
    moved.2 :: (moved.2.recalculateMoments new text none false ++
      if moved.1 && !recalculated.1.persisted then [recalculated.2.persist.2] else [])
  | .forget document =>
    let removed := (engine.invalidate document).removeEntry document
    removed.2 :: if removed.1 then [removed.2.persist.2] else []
  | .invalidate document => [engine.invalidate document]
  | .withSettings settings => [engine.withSettings settings]

/-- The moments of a run, behind the one at which it starts. -/
def momentsAll (engine : Engine) : List Action → List Engine
  | [] => []
  | action :: actions => engine.moments action ++ (engine.act action).2.momentsAll actions

/-- From one moment to the next the store stays as it is, or a save is tried. -/
def Ticks (engine next : Engine) : Prop :=
  next.store = engine.store ∨ next = engine.persist.2

/-- The moments that lead from one engine to another. -/
inductive Traces : Engine → List Engine → Engine → Prop where
  | done {engine : Engine} : Traces engine [] engine
  | tick {engine next after : Engine} {moments : List Engine} :
      engine.Ticks next → Traces next moments after → Traces engine (next :: moments) after

theorem Traces.append {moments more : List Engine} (h : engine.Traces moments middle)
    (h' : middle.Traces more after) : engine.Traces (moments ++ more) after := by
  induction h with
  | done => exact h'
  | tick ht _ ih => exact .tick ht (ih h')

theorem traces_adopt (engine : Engine) (changed : Option Index) :
    engine.Traces (engine.adoptMoments changed) (engine.adopt changed).2 := by
  rcases changed with _ | index
  · exact .done
  · exact .tick (.inl rfl) (.tick (.inr rfl) .done)

theorem traces_recalculate (engine : Engine) (document text : String) (cursor : Option Nat)
    (quiet : Bool) : engine.Traces (engine.recalculateMoments document text cursor quiet)
      (engine.recalculate document text cursor quiet).2 := by
  unfold recalculateMoments
  rcases hs : engine.skips document text quiet with _ | _
  · rw [recalculate_of_not_skips hs]
    exact .tick (.inl rfl) (traces_adopt _ _)
  · rw [recalculate_of_skips hs]
    exact .done

theorem store_setIndex (engine : Engine) (document : String) (changed : Option Index) :
    ((engine.dropCells document).setIndex changed).2.store = engine.store := by
  rcases changed with _ | index <;> rfl

/-- The moments of an action lead to what the action gives. -/
theorem traces_act (engine : Engine) (action : Action) :
    engine.Traces (engine.moments action) (engine.act action).2 := by
  match action with
  | .recalculate document text cursor quiet => exact traces_recalculate ..
  | .render document text => exact traces_recalculate ..
  | .rename old new text =>
    have hstore : engine.Ticks ((engine.invalidate old).moveEntry old new).2 :=
      .inl (store_setIndex (engine.invalidate old) old _)
    have hcases := rename_cases engine old new text
    rw [act_rename]
    unfold moments
    dsimp only
    generalize (engine.invalidate old).moveEntry old new = moved at hstore hcases ⊢
    refine .tick hstore ((traces_recalculate moved.2 new text none false).append ?_)
    rcases hcases with ⟨hmoved, hpersisted, he⟩ | ⟨hs, he⟩
    · rw [he, hmoved, hpersisted]
      exact .tick (.inr rfl) .done
    · rw [he, if_neg]
      · exact .done
      · rw [Bool.and_eq_true, Bool.not_eq_true']
        rintro ⟨hmoved, hpersisted⟩
        rcases hs with hs | hs
        · exact Bool.noConfusion (hmoved.symm.trans hs)
        · exact Bool.noConfusion (hpersisted.symm.trans hs)
  | .forget document =>
    refine .tick (.inl (store_setIndex (engine.invalidate document) document _)) ?_
    show Traces _ _ (engine.forget document).2
    unfold Engine.forget
    dsimp only
    split
    · exact .tick (.inr rfl) .done
    · exact .done
  | .invalidate document => exact .tick (.inl rfl) .done
  | .withSettings settings => exact .tick (.inl rfl) .done

theorem traces_actAll : ∀ (actions : List Action) (engine : Engine),
    engine.Traces (engine.momentsAll actions) (engine.actAll actions)
  | [], _ => .done
  | action :: actions, engine => (traces_act engine action).append (traces_actAll actions _)

/-- What the store holds at some moment was there from the start, or was the index at a moment up to
then. -/
theorem Traces.stored {moments : List Engine} (h : engine.Traces moments after) :
    ∀ {earlier later : List Engine} {now : Engine}, engine :: moments = earlier ++ now :: later →
      now.store.contents = engine.store.contents ∨
        ∃ past ∈ earlier ++ [now], now.store.contents = past.index := by
  induction h with
  | done =>
    intro earlier later now he
    match earlier with
    | [] =>
      cases he
      exact .inl rfl
    | _ :: earlier =>
      rw [List.cons_append, List.cons.injEq] at he
      exact absurd he.2.symm (List.append_ne_nil_of_right_ne_nil _ (List.cons_ne_nil _ _))
  | @tick engine next after moments ht _ ih =>
    intro earlier later now he
    match earlier with
    | [] =>
      cases he
      exact .inl rfl
    | first :: earlier =>
      rw [List.cons_append, List.cons.injEq] at he
      obtain ⟨rfl, he⟩ := he
      rcases ih he with hnow | ⟨past, hp, hnow⟩
      · rcases ht with hstore | rfl
        · exact .inl (hnow.trans (congrArg Store.contents hstore))
        · rcases persist_contents engine with hsaved | hsaved
          · exact .inr ⟨engine, List.mem_cons_self, hnow.trans hsaved⟩
          · exact .inl (hnow.trans hsaved)
      · exact .inr ⟨past, List.mem_cons_of_mem _ hp, hnow⟩

/-! ### Saves -/

/-- From one engine to another saves may be tried; if none of them fails, a store that held the
index holds it again. -/
structure Keeps (engine after : Engine) : Prop where
  saveFails : after.store.saveFails = engine.store.saveFails
  attempts : engine.store.attempts ≤ after.store.attempts
  saved : (∀ n, engine.store.attempts ≤ n → n < after.store.attempts →
    engine.store.saveFails n = false) → engine.Saved → after.Saved

theorem Keeps.of_eq (hindex : after.index = engine.index) (hstore : after.store = engine.store) :
    engine.Keeps after := by
  refine ⟨congrArg Store.saveFails hstore, (congrArg Store.attempts hstore).ge, fun _ h => ?_⟩
  unfold Saved at h ⊢
  rwa [hindex, hstore]

theorem Keeps.trans (h : engine.Keeps middle) (h' : middle.Keeps after) : engine.Keeps after := by
  refine ⟨h'.saveFails.trans h.saveFails, h.attempts.trans h'.attempts, fun hn hs => ?_⟩
  refine h'.saved (fun n hle hlt => ?_) (h.saved (fun n hle hlt => ?_) hs)
  · rw [h.saveFails]
    exact hn n (h.attempts.trans hle) hlt
  · exact hn n hle (hlt.trans_le h'.attempts)

/-- A save makes up for whatever has changed the index. -/
theorem Keeps.persist (middle : Engine)
    (hfails : middle.store.saveFails = engine.store.saveFails)
    (hattempts : engine.store.attempts ≤ middle.store.attempts) :
    engine.Keeps middle.persist.2 := by
  obtain ⟨-, hf, ha⟩ := persist_frame middle
  refine ⟨hf.trans hfails, by omega, fun hn _ => ?_⟩
  rcases hp : middle.persist.1 with _ | _
  · have hfailed := persist_fails hp
    rw [hfails, hn middle.store.attempts hattempts (by omega)] at hfailed
    cases hfailed
  · exact saved_of_persist hp

/-- Either nothing has changed and no save is tried, or the entry of the document is not what it was
and a save is. -/
def SavesChange (engine : Engine) (document : String) (changed : Bool) (after : Engine) : Prop :=
  (changed = false ∧ after.index = engine.index ∧ after.store = engine.store) ∨
    (changed = true ∧ entriesAgree engine.index[document]? after.index[document]? = false ∧
      after.store.attempts = engine.store.attempts + 1)

/-! ### Taking in a changed index -/

theorem adopt_saves (engine : Engine) {changed : Option Index}
    (h : ∀ index, changed = some index →
      entriesAgree engine.index[document]? index[document]? = false) :
    engine.SavesChange document (engine.adopt changed).1.1 (engine.adopt changed).2 := by
  rcases changed with _ | index
  · exact .inl ⟨rfl, rfl, rfl⟩
  · exact .inr ⟨rfl, h index rfl, (persist_frame { engine with index }).2.2⟩

theorem keeps_adopt (engine : Engine) (changed : Option Index) :
    engine.Keeps (engine.adopt changed).2 := by
  rcases changed with _ | index
  · exact .of_eq rfl rfl
  · exact .persist { engine with index } rfl (Nat.le_refl _)

theorem saved_of_adopt {changed : Option Index} (h : (engine.adopt changed).1.2 = true) :
    (engine.adopt changed).2.Saved := by
  rcases changed with _ | index
  · cases h
  · exact saved_of_persist h

theorem changedBy?_disagrees {pass : Pass} {changed : Index}
    (h : engine.changedBy? document pass = some changed) :
    entriesAgree engine.index[document]? changed[document]? = false := by
  unfold changedBy? at h
  split at h
  · exact Index.replace?_disagrees h
  · exact Index.merge?_disagrees h

/-! ### Actions -/

theorem recalculate_saves (engine : Engine) (document text : String) (cursor : Option Nat)
    (quiet : Bool) : engine.SavesChange document
      (engine.recalculate document text cursor quiet).1.indexChanged
      (engine.recalculate document text cursor quiet).2 := by
  rcases hs : engine.skips document text quiet with _ | _
  · rw [recalculate_of_not_skips hs]
    exact adopt_saves (engine.remember document _) fun _ => changedBy?_disagrees
  · rw [recalculate_of_skips hs]
    exact .inl ⟨rfl, rfl, rfl⟩

theorem keeps_recalculate (engine : Engine) (document text : String) (cursor : Option Nat)
    (quiet : Bool) : engine.Keeps (engine.recalculate document text cursor quiet).2 := by
  rcases hs : engine.skips document text quiet with _ | _
  · rw [recalculate_of_not_skips hs]
    have hremember : ∀ m, engine.Keeps (engine.remember document m) := fun _ => .of_eq rfl rfl
    exact (hremember _).trans (keeps_adopt _ _)
  · rw [recalculate_of_skips hs]
    exact .of_eq rfl rfl

theorem saved_of_recalculate {cursor : Option Nat} {quiet : Bool}
    (h : (engine.recalculate document text cursor quiet).1.persisted = true) :
    (engine.recalculate document text cursor quiet).2.Saved := by
  rcases hs : engine.skips document text quiet with _ | _
  · rw [recalculate_of_not_skips hs] at h ⊢
    exact saved_of_adopt h
  · rw [recalculate_of_skips hs] at h
    cases h

theorem forget_saves (engine : Engine) (document : String) :
    engine.SavesChange document (engine.forget document).1 (engine.forget document).2 := by
  unfold Engine.forget removeEntry
  rcases hr : (engine.invalidate document).index.remove? document with _ | changed
  · exact .inl ⟨rfl, rfl, rfl⟩
  · have hdisagrees := Index.remove?_disagrees hr
    exact .inr ⟨rfl, hdisagrees, (persist_frame _).2.2⟩

theorem keeps_forget (engine : Engine) (document : String) :
    engine.Keeps (engine.forget document).2 := by
  unfold Engine.forget removeEntry
  rcases (engine.invalidate document).index.remove? document with _ | changed
  · exact .of_eq rfl rfl
  · exact .persist _ rfl (Nat.le_refl _)

/-- Without an entry to move, the index and the store stay as they are. -/
theorem moveEntry_store (engine : Engine) (old new : String) :
    (engine.moveEntry old new).2.store = engine.store ∧
      ((engine.moveEntry old new).1 = false →
        (engine.moveEntry old new).2.index = engine.index) := by
  unfold moveEntry
  rcases engine.index.move? old new with _ | changed
  · exact ⟨rfl, fun _ => rfl⟩
  · exact ⟨rfl, fun h => Bool.noConfusion h⟩

theorem keeps_rename (engine : Engine) (old new text : String) :
    engine.Keeps (engine.rename old new text).2 := by
  obtain ⟨hstore, hindex⟩ := moveEntry_store (engine.invalidate old) old new
  have hcases := rename_cases engine old new text
  generalize (engine.invalidate old).moveEntry old new = moved at hstore hindex hcases
  have hrecalculated := keeps_recalculate moved.2 new text none false
  have hfails : (moved.2.recalculate new text none false).2.store.saveFails
      = engine.store.saveFails :=
    hrecalculated.saveFails.trans (congrArg Store.saveFails hstore)
  have hattempts : engine.store.attempts
      ≤ (moved.2.recalculate new text none false).2.store.attempts :=
    (congrArg Store.attempts hstore).ge.trans hrecalculated.attempts
  rcases hcases with ⟨-, -, he⟩ | ⟨hmoved | hpersisted, he⟩ <;> rw [he]
  · exact .persist _ hfails hattempts
  · exact .trans (.of_eq (hindex hmoved) hstore) hrecalculated
  · exact ⟨hfails, hattempts, fun _ _ => saved_of_recalculate hpersisted⟩

theorem saved_of_rename {old new : String}
    (h : (engine.rename old new text).1.persisted = true) :
    (engine.rename old new text).2.Saved := by
  rcases rename_cases engine old new text with ⟨-, -, he⟩ | ⟨-, he⟩ <;> rw [he] at h ⊢
  · dsimp only at h
    exact saved_of_persist h
  · exact saved_of_recalculate h

theorem keeps_act (engine : Engine) (action : Action) : engine.Keeps (engine.act action).2 := by
  match action with
  | .recalculate document text cursor quiet => exact keeps_recalculate ..
  | .render document text => exact keeps_recalculate engine document text none false
  | .rename old new text =>
    rw [act_rename]
    exact keeps_rename engine old new text
  | .forget document => exact keeps_forget engine document
  | .invalidate document => exact .of_eq rfl rfl
  | .withSettings settings => exact .of_eq rfl rfl

theorem keeps_actAll : ∀ (actions : List Action) (engine : Engine),
    engine.Keeps (engine.actAll actions)
  | [], _ => .of_eq rfl rfl
  | action :: actions, engine => (keeps_act engine action).trans (keeps_actAll actions _)

/-- An outcome says that the index was saved only if the store holds it. -/
theorem saved_of_outcome {action : Action} {outcome : Outcome}
    (h : (engine.act action).1 = some outcome) (hpersisted : outcome.persisted = true) :
    (engine.act action).2.Saved := by
  match action with
  | .recalculate document text cursor quiet =>
    rw [act_recalculate] at h ⊢
    rw [← Option.some.inj h] at hpersisted
    exact saved_of_recalculate hpersisted
  | .rename old new text =>
    rw [act_rename] at h ⊢
    rw [← Option.some.inj h] at hpersisted
    exact saved_of_rename hpersisted
  | .render .. => cases h
  | .forget _ => cases h
  | .invalidate _ => cases h
  | .withSettings _ => cases h

/-- In a run that starts with the index stored, the store holds the index after every action unless
a save has failed, and then too when the outcome says so; at every moment it holds the index of that
moment or of an earlier one.  Saves are tried for changes and for nothing else. -/
theorem store_follows_index {start : Engine} (hstart : start.Saved) (actions : List Action) :
    let engine := start.actAll actions
    ((∀ n, start.store.attempts ≤ n → n < engine.store.attempts →
        start.store.saveFails n = false) → engine.Saved) ∧
      (∀ action outcome, (engine.act action).1 = some outcome → outcome.persisted = true →
        (engine.act action).2.Saved) ∧
      (∀ earlier now later, start :: start.momentsAll actions = earlier ++ now :: later →
        ∃ past ∈ earlier ++ [now], now.store.contents = past.index) ∧
      (∀ document text cursor quiet, engine.SavesChange document
        (engine.recalculate document text cursor quiet).1.indexChanged
        (engine.recalculate document text cursor quiet).2) ∧
      ∀ document, engine.SavesChange document (engine.forget document).1
        (engine.forget document).2 := by
  intro engine
  refine ⟨fun hn => (keeps_actAll actions start).saved hn hstart,
    fun action outcome => saved_of_outcome, fun earlier now later he => ?_,
    fun document text cursor quiet => recalculate_saves engine document text cursor quiet,
    forget_saves engine⟩
  rcases (traces_actAll actions start).stored he with hnow | hpast
  · have hmem : start ∈ earlier ++ [now] := by
      match earlier with
      | [] =>
        cases he
        exact List.mem_cons_self
      | first :: earlier =>
        rw [List.cons_append, List.cons.injEq] at he
        exact he.1 ▸ List.mem_cons_self
    exact ⟨start, hmem, hnow.trans hstart⟩
  · exact hpast

theorem store_follows_index_failed_save :
    let start : Engine := { store := { saveFails := fun n => n == 1 }, digest := Text.rolling }
    let first := Action.recalculate "n" "| a | 1 |\n| b | =SUM(col) |" none false
    let second := Action.recalculate "n" "| a | 2 |\n| b | =SUM(col) |" none true
    let rename := Action.rename "n" "m" "| a | 2 |"
    start.Saved ∧ (start.actAll [first]).Saved ∧
      ((start.actAll [first, second]).act rename).2.Saved := by
  intro start first second rename
  have hstart : start.Saved := rfl
  have hfirst : (start.actAll [first]).store.attempts = 1 := by decide +kernel
  have hrename : ((start.actAll [first, second]).act rename).1
      = some { indexChanged := true, persisted := true } := by decide +kernel
  refine ⟨hstart, (store_follows_index hstart [first]).1 fun n _ hn => ?_,
    (store_follows_index hstart [first, second]).2.1 rename _ hrename rfl⟩
  rw [hfirst, Nat.lt_one_iff] at hn
  rw [hn]
  rfl

end ComputedTables.Engine
