import ComputedTables.Proofs.Consistency

/-!
# Actions

Everything that an engine can be asked for, in any order: unlike an `Operation`, an action may also
recalculate a document with the cursor in it.  What an action does to the memory of a document is
told by the pass that it makes over the document (`Engine.passOver?`): without one, the memory is
dropped or stays (`act_memoryOf`).  The last pass over a document since the start of a run
(`Engine.lastPass?`) accounts for all that is remembered of it (`memoryOf_actAll`).
-/

namespace ComputedTables

/-- What an engine can be asked for. -/
inductive Action where
  | recalculate (document text : String) (cursor : Option Nat) (quiet : Bool)
  | render (document text : String)
  | rename (old new text : String)
  | forget (document : String)
  | invalidate (document : String)
  | withSettings (settings : Settings)
  deriving DecidableEq, Repr

/-- The text that an action brings. -/
def Action.text? : Action → Option String
  | .recalculate _ text _ _ => some text
  | .render _ text => some text
  | .rename _ _ text => some text
  | _ => none

/-- Where a pass over a document starts: the engine, the text and the scope. -/
structure PassStart where
  engine : Engine
  text : String
  scope : Option Span

/-- The pass over the document of that name. -/
def PassStart.pass (p : PassStart) (document : String) : Pass :=
  p.engine.pass document p.text p.scope

namespace DocumentMemory

/-- Neither a text nor a table is remembered. -/
def Forgotten (m : DocumentMemory) : Prop :=
  m.text = none ∧ m.tables = ∅

/-- The same text and the same tables are remembered; the cell texts may differ. -/
structure Matches (m m' : DocumentMemory) : Prop where
  text : m.text = m'.text
  tables : m.tables = m'.tables

theorem Matches.refl (m : DocumentMemory) : m.Matches m :=
  ⟨rfl, rfl⟩

theorem Matches.trans {m m' m'' : DocumentMemory} (h : m.Matches m') (h' : m'.Matches m'') :
    m.Matches m'' :=
  ⟨h.text.trans h'.text, h.tables.trans h'.tables⟩

end DocumentMemory

namespace Engine

/-- The engine after an action, and the outcome that the action returns, if it returns one. -/
def act (engine : Engine) : Action → Option Outcome × Engine
  | .recalculate document text cursor quiet =>
    let (outcome, engine) := engine.recalculate document text cursor quiet
    (some outcome, engine)
  | .render document text => (none, (engine.render document text).2)
  | .rename old new text =>
    let (outcome, engine) := engine.rename old new text
    (some outcome, engine)
  | .forget document => (none, (engine.forget document).2)
  | .invalidate document => (none, engine.invalidate document)
  | .withSettings settings => (none, engine.withSettings settings)

def actAll (engine : Engine) (actions : List Action) : Engine :=
  actions.foldl (fun engine action => (engine.act action).2) engine

/-- Nothing is remembered that could save work. -/
def Fresh (engine : Engine) : Prop :=
  ∀ document, (engine.memoryOf document).Forgotten

/-- The engines that actions lead to, whatever the settings, the policy, the index and the store
are at the start. -/
inductive Reachable : Engine → Prop where
  | fresh {engine : Engine} : engine.Fresh → Reachable engine
  | act {engine : Engine} : Reachable engine → ∀ action, Reachable (engine.act action).2

/-- Whether a recalculation ends before it looks at any table. -/
def skips (engine : Engine) (document text : String) (quiet : Bool) : Bool :=
  quiet && (engine.memoryOf document).text == some (engine.digest text)

/-- The pass that an action makes over a document, if it makes one. -/
def passOver? (engine : Engine) (document : String) : Action → Option PassStart
  | .recalculate d text cursor quiet =>
    if d = document ∧ engine.skips d text quiet = false then
      some ⟨engine, text, scopeOf text cursor quiet⟩
    else none
  | .render d text => if d = document then some ⟨engine, text, none⟩ else none
  | .rename old new text =>
    if new = document then some ⟨((engine.invalidate old).moveEntry old new).2, text, none⟩
    else none
  | _ => none

/-- The last pass over a document in a run. -/
def lastPass? (engine : Engine) (document : String) : List Action → Option PassStart
  | [] => none
  | action :: actions =>
    ((engine.act action).2.lastPass? document actions).or (engine.passOver? document action)

variable {engine : Engine} {document text : String}

theorem act_recalculate (engine : Engine) (document text : String) (cursor : Option Nat)
    (quiet : Bool) : engine.act (.recalculate document text cursor quiet) =
      let recalculated := engine.recalculate document text cursor quiet
      (some recalculated.1, recalculated.2) :=
  rfl

theorem act_render (engine : Engine) (document text : String) :
    engine.act (.render document text)
      = (none, (engine.recalculate document text none false).2) :=
  rfl

theorem act_rename (engine : Engine) (old new text : String) :
    engine.act (.rename old new text) =
      let renamed := engine.rename old new text
      (some renamed.1, renamed.2) :=
  rfl

theorem actAll_append (engine : Engine) (actions more : List Action) :
    engine.actAll (actions ++ more) = (engine.actAll actions).actAll more :=
  List.foldl_append

theorem lastPass?_append (document : String) (last : Action) : ∀ (actions : List Action)
    (engine : Engine), engine.lastPass? document (actions ++ [last])
      = ((engine.actAll actions).passOver? document last).or (engine.lastPass? document actions)
  | [], engine => by
    show Option.or none _ = Option.or _ none
    rw [Option.none_or, Option.or_none]
    rfl
  | action :: actions, engine => by
    show ((engine.act action).2.lastPass? document (actions ++ [last])).or _ = _
    rw [lastPass?_append document last actions, Option.or_assoc]
    rfl

/-! ### Recalculations -/

theorem recalculate_of_skips {quiet : Bool} (h : engine.skips document text quiet = true)
    (cursor : Option Nat) :
    engine.recalculate document text cursor quiet = ({ unchanged := true }, engine) :=
  if_pos h

theorem recalculate_of_not_skips {quiet : Bool} (h : engine.skips document text quiet = false)
    (cursor : Option Nat) : engine.recalculate document text cursor quiet
      = engine.publish document (engine.pass document text (scopeOf text cursor quiet)) :=
  if_neg (Bool.eq_false_iff.1 h)

theorem skips_loud (engine : Engine) (document text : String) :
    engine.skips document text false = false :=
  Bool.false_and _

theorem recalculate_loud (engine : Engine) (document text : String) (cursor : Option Nat) :
    engine.recalculate document text cursor false
      = engine.publish document (engine.pass document text none) :=
  recalculate_of_not_skips (skips_loud engine document text) cursor

/-- The index that a pass leads to, if it changes the index. -/
def changedBy? (engine : Engine) (document : String) (pass : Pass) : Option Index :=
  if pass.complete then engine.index.replace? engine.policy document pass.collected
  else engine.index.merge? document pass.collected

theorem publish_eq (engine : Engine) (document : String) (pass : Pass) :
    engine.publish document pass =
      let adopted := (engine.remember document pass.memory).adopt (engine.changedBy? document pass)
      ({ processed := pass.processed
         reused := pass.reused
         outOfScope := pass.outOfScope
         published := pass.collected.size
         indexChanged := adopted.1.1
         persisted := adopted.1.2 }, adopted.2) :=
  rfl

theorem publish_frame (engine : Engine) (document : String) (pass : Pass) :
    let after := (engine.publish document pass).2
    after.settings = engine.settings ∧ after.policy = engine.policy ∧
      after.index = (engine.changedBy? document pass).getD engine.index ∧
      ∀ other, after.memoryOf other
        = if document = other then pass.memory else engine.memoryOf other := by
  intro after
  obtain ⟨hindex, hsettings, hpolicy, hmemory⟩ := adopt_frame
    (engine.remember document pass.memory) (engine.changedBy? document pass)
  refine ⟨hsettings, hpolicy, hindex, fun other => ?_⟩
  have hmemory : after.memory = (engine.remember document pass.memory).memory := hmemory
  unfold memoryOf
  rw [hmemory]
  exact memoryOf_remember engine document other pass.memory

/-- A pass is over the text that the action brings.  It starts at once, or, in a rename, when the
entry has been moved. -/
theorem passOver?_cases {action : Action} {p : PassStart}
    (h : engine.passOver? document action = some p) :
    action.text? = some p.text ∧ (p.engine = engine ∨ ∃ old,
      action = .rename old document p.text ∧
        p.engine = ((engine.invalidate old).moveEntry old document).2) := by
  unfold passOver? at h
  split at h
  · split at h <;> cases h
    exact ⟨rfl, .inl rfl⟩
  · split at h <;> cases h
    exact ⟨rfl, .inl rfl⟩
  · rename_i old new text
    split at h
    · rename_i hnew
      subst hnew
      cases h
      exact ⟨rfl, .inr ⟨old, rfl, rfl⟩⟩
    · cases h
  · cases h

/-! ### Renaming and dropping -/

theorem rename_cases (engine : Engine) (old new text : String) :
    let moved := (engine.invalidate old).moveEntry old new
    let recalculated := moved.2.recalculate new text none false
    (moved.1 = true ∧ recalculated.1.persisted = false ∧ engine.rename old new text
        = ({ recalculated.1 with persisted := recalculated.2.persist.1 },
          recalculated.2.persist.2)) ∨
      ((moved.1 = false ∨ recalculated.1.persisted = true) ∧
        engine.rename old new text = recalculated) := by
  unfold Engine.rename
  generalize (engine.invalidate old).moveEntry old new = moved
  obtain ⟨hasMoved, renamed⟩ := moved
  dsimp only
  generalize renamed.recalculate new text none false = recalculated
  obtain ⟨outcome, after⟩ := recalculated
  dsimp only
  rcases hasMoved with _ | _
  · exact .inr ⟨.inl rfl, rfl⟩
  · rcases hp : outcome.persisted with _ | _
    · exact .inl ⟨rfl, rfl, rfl⟩
    · exact .inr ⟨.inr rfl, rfl⟩

/-- The save that may end a rename leaves what is remembered. -/
theorem rename_recalculates (engine : Engine) (old new text : String) :
    let moved := ((engine.invalidate old).moveEntry old new).2
    (engine.rename old new text).2.settings
        = (moved.recalculate new text none false).2.settings ∧
      ∀ document, (engine.rename old new text).2.memoryOf document
        = (moved.recalculate new text none false).2.memoryOf document := by
  intro moved
  have hpersist : ∀ engine : Engine, engine.persist.2.settings = engine.settings ∧
      ∀ document, engine.persist.2.memoryOf document = engine.memoryOf document :=
    fun engine => ⟨rfl, fun _ => rfl⟩
  rcases rename_cases engine old new text with ⟨-, -, he⟩ | ⟨-, he⟩
  · rw [he]
    exact hpersist _
  · rw [he]
    exact ⟨rfl, fun _ => rfl⟩

/-- An engine that has dropped the text and the tables of a document, and keeps those of all
others. -/
structure Drops (engine : Engine) (document : String) (after : Engine) : Prop where
  settings : after.settings = engine.settings
  digest : after.digest = engine.digest
  self : (after.memoryOf document).Forgotten
  other : ∀ other, other ≠ document → (after.memoryOf other).Matches (engine.memoryOf other)

theorem drops_invalidate (engine : Engine) (document : String) :
    engine.Drops document (engine.invalidate document) := by
  refine ⟨rfl, rfl, ?_, fun other ho => ?_⟩
  · rw [memoryOf_invalidate_self]
    exact ⟨rfl, rfl⟩
  · rw [memoryOf_invalidate_other engine ho]
    exact .refl _

theorem drops_changedEntry (engine : Engine) (document : String) (changed : Option Index) :
    engine.Drops document
      (((engine.invalidate document).dropCells document).setIndex changed).2 := by
  have hdrops := drops_invalidate engine document
  obtain ⟨-, hformatter, -, hmemory⟩ := changedEntry_frame (engine.invalidate document) document
    changed
  obtain ⟨-, hsettings, -, -⟩ := setIndex_frame ((engine.invalidate document).dropCells document)
    changed
  exact ⟨hsettings, digest_setIndex _ changed, ⟨(hmemory document).1.trans hdrops.self.1,
    (hmemory document).2.trans hdrops.self.2⟩,
    fun other ho => .trans ⟨(hmemory other).1, (hmemory other).2⟩ (hdrops.other other ho)⟩

theorem drops_forget (engine : Engine) (document : String) :
    engine.Drops document (engine.forget document).2 := by
  have hdrops := drops_changedEntry engine document
    ((engine.invalidate document).index.remove? document)
  unfold Engine.forget removeEntry
  dsimp only
  split
  · exact ⟨hdrops.settings, hdrops.digest, hdrops.self, hdrops.other⟩
  · exact hdrops

theorem forgotten_withSettings (engine : Engine) (settings : Settings) (document : String) :
    ((engine.withSettings settings).memoryOf document).Forgotten := by
  unfold memoryOf Engine.withSettings
  rw [Std.ExtTreeMap.getD_eq_getD_getElem?, Std.ExtTreeMap.getElem?_map]
  rcases engine.memory[document]? with _ | m <;> exact ⟨rfl, rfl⟩

/-! ### How digests are taken -/

theorem digest_rename (engine : Engine) (old new text : String) :
    (engine.rename old new text).2.digest = engine.digest := by
  have hmoved : ((engine.invalidate old).moveEntry old new).2.digest = engine.digest :=
    digest_setIndex _ _
  rcases rename_cases engine old new text with ⟨-, -, he⟩ | ⟨-, he⟩ <;> rw [he]
  · exact (digest_recalculate _ _ _ _ _).trans hmoved
  · exact (digest_recalculate _ _ _ _ _).trans hmoved

/-- Whatever is asked for, digests are taken as before. -/
@[simp] theorem digest_act (engine : Engine) (action : Action) :
    (engine.act action).2.digest = engine.digest := by
  match action with
  | .recalculate document text cursor quiet =>
    exact digest_recalculate engine document text cursor quiet
  | .render document text => exact digest_recalculate engine document text none false
  | .rename old new text => exact digest_rename engine old new text
  | .forget document => exact (drops_forget engine document).digest
  | .invalidate document => rfl
  | .withSettings settings => rfl

@[simp] theorem digest_actAll : ∀ (actions : List Action) (engine : Engine),
    (engine.actAll actions).digest = engine.digest
  | [], _ => rfl
  | action :: actions, engine => (digest_actAll actions _).trans (digest_act engine action)

theorem passOver?_digest {action : Action} {p : PassStart}
    (h : engine.passOver? document action = some p) : p.engine.digest = engine.digest := by
  rcases (passOver?_cases h).2 with he | ⟨old, -, he⟩
  · rw [he]
  · rw [he]
    exact digest_setIndex _ _

theorem lastPass?_digest : ∀ (actions : List Action) {engine : Engine} {last : PassStart},
    engine.lastPass? document actions = some last → last.engine.digest = engine.digest
  | [], _, _, h => nomatch h
  | action :: actions, engine, last, h => by
    unfold lastPass? at h
    rcases Option.or_eq_some_iff.1 h with hlater | ⟨-, hfirst⟩
    · exact (lastPass?_digest actions hlater).trans (digest_act engine action)
    · exact passOver?_digest hfirst

/-! ### What an action does to the memory of a document -/

/-- A pass leads from one engine to another: it starts with what is remembered of the document, or
without its tables, and it is what is remembered afterwards. -/
structure LeadsTo (engine : Engine) (document : String) (p : PassStart) (after : Engine) :
    Prop where
  start : p.engine.settings = engine.settings
  settings : after.settings = engine.settings
  tables : (p.engine.memoryOf document).tables = (engine.memoryOf document).tables ∨
    (p.engine.memoryOf document).tables = ∅
  memory : (after.memoryOf document).Matches (p.pass document).memory

/-- What is remembered of a document is dropped, or stays. -/
def Leaves (engine : Engine) (document : String) (after : Engine) : Prop :=
  (after.memoryOf document).Forgotten ∨
    after.settings = engine.settings ∧
      (after.memoryOf document).Matches (engine.memoryOf document)

theorem Drops.leaves {dropped : String} {after : Engine} (h : engine.Drops dropped after)
    (document : String) : engine.Leaves document after := by
  by_cases hd : document = dropped
  · subst hd
    exact .inl h.self
  · exact .inr ⟨h.settings, h.other document hd⟩

theorem leadsTo_recalculate {quiet : Bool} (h : engine.skips document text quiet = false)
    (cursor : Option Nat) : engine.LeadsTo document ⟨engine, text, scopeOf text cursor quiet⟩
      (engine.recalculate document text cursor quiet).2 := by
  obtain ⟨hsettings, -, -, hmemory⟩ := publish_frame engine document
    (engine.pass document text (scopeOf text cursor quiet))
  rw [recalculate_of_not_skips h]
  refine ⟨rfl, hsettings, .inl rfl, ?_⟩
  rw [hmemory, if_pos rfl]
  exact .refl _

theorem leaves_recalculate_other (engine : Engine) {d : String} (hd : d ≠ document)
    (text : String) (cursor : Option Nat) (quiet : Bool) :
    (engine.recalculate d text cursor quiet).2.settings = engine.settings ∧
      ((engine.recalculate d text cursor quiet).2.memoryOf document).Matches
        (engine.memoryOf document) := by
  rcases hs : engine.skips d text quiet with _ | _
  · obtain ⟨hsettings, -, -, hmemory⟩ := publish_frame engine d
      (engine.pass d text (scopeOf text cursor quiet))
    rw [recalculate_of_not_skips hs]
    refine ⟨hsettings, ?_⟩
    rw [hmemory, if_neg hd]
    exact .refl _
  · rw [recalculate_of_skips hs]
    exact ⟨rfl, .refl _⟩

/-- An action makes the pass over a document that it is said to make, or leaves what is remembered
of it. -/
theorem act_memoryOf (engine : Engine) (document : String) (action : Action) :
    let after := (engine.act action).2
    (∃ p, engine.passOver? document action = some p ∧ engine.LeadsTo document p after) ∨
      engine.passOver? document action = none ∧ engine.Leaves document after := by
  match action with
  | .recalculate d text cursor quiet =>
    rw [act_recalculate]
    by_cases hd : d = document
    · subst hd
      rcases hs : engine.skips d text quiet with _ | _
      · exact .inl ⟨_, if_pos ⟨rfl, hs⟩, leadsTo_recalculate hs cursor⟩
      · refine .inr ⟨if_neg fun h => ?_, .inr ?_⟩
        · rw [hs] at h
          cases h.2
        · rw [recalculate_of_skips hs]
          exact ⟨rfl, .refl _⟩
    · exact .inr ⟨if_neg fun h => hd h.1,
        .inr (leaves_recalculate_other engine hd text cursor quiet)⟩
  | .render d text =>
    rw [act_render]
    by_cases hd : d = document
    · subst hd
      exact .inl ⟨_, if_pos rfl, leadsTo_recalculate (skips_loud engine d text) none⟩
    · exact .inr ⟨if_neg hd, .inr (leaves_recalculate_other engine hd text none false)⟩
  | .rename old new text =>
    have hdrops := drops_changedEntry engine old ((engine.invalidate old).index.move? old new)
    obtain ⟨hsettings, hmemory⟩ := rename_recalculates engine old new text
    rw [act_rename]
    -- the old name is dropped before the pass over the new one, which may be the same name
    by_cases hd : new = document
    · subst hd
      have hleads := leadsTo_recalculate (skips_loud
        ((engine.invalidate old).moveEntry old new).2 new text) none
      refine .inl ⟨_, if_pos rfl, hdrops.settings, ?_, ?_, ?_⟩
      · exact hsettings.trans (hleads.settings.trans hdrops.settings)
      · by_cases ho : new = old
        · subst ho
          exact .inr hdrops.self.2
        · exact .inl (hdrops.other new ho).tables
      · show ((engine.rename old new text).2.memoryOf new).Matches _
        rw [hmemory]
        exact hleads.memory
    · obtain ⟨hkept, hothers⟩ := leaves_recalculate_other
        ((engine.invalidate old).moveEntry old new).2 hd text none false
      refine .inr ⟨if_neg hd, ?_⟩
      show ((engine.rename old new text).2.memoryOf document).Forgotten ∨
        (engine.rename old new text).2.settings = engine.settings ∧
          ((engine.rename old new text).2.memoryOf document).Matches (engine.memoryOf document)
      rw [hmemory, hsettings, hkept]
      rcases hdrops.leaves document with hforgotten | ⟨-, hleft⟩
      · exact .inl ⟨hothers.text.trans hforgotten.1, hothers.tables.trans hforgotten.2⟩
      · exact .inr ⟨hdrops.settings, hothers.trans hleft⟩
  | .forget d => exact .inr ⟨rfl, (drops_forget engine d).leaves document⟩
  | .invalidate d => exact .inr ⟨rfl, (drops_invalidate engine d).leaves document⟩
  | .withSettings settings =>
    exact .inr ⟨rfl, .inl (forgotten_withSettings engine settings document)⟩

/-- What is remembered of a document after a run is what the last pass over it has left, unless it
has been dropped since. -/
theorem memoryOf_actAll {start : Engine} (hstart : start.Fresh) (document : String)
    (actions : List Action) :
    ((start.actAll actions).memoryOf document).Forgotten ∨
      ∃ last, start.lastPass? document actions = some last ∧
        ((start.actAll actions).memoryOf document).Matches (last.pass document).memory := by
  -- from the end of the run: its last action makes a pass, or leaves what was there before
  induction actions using List.reverseRecOn with
  | nil => exact .inl (hstart document)
  | append_singleton actions action ih =>
    have hafter : start.actAll (actions ++ [action])
        = ((start.actAll actions).act action).2 := actAll_append start actions [action]
    rw [hafter, lastPass?_append]
    rcases act_memoryOf (start.actAll actions) document action with
      ⟨p, hp, hleads⟩ | ⟨hnone, hforgotten | ⟨-, hleft⟩⟩
    · rw [hp]
      exact .inr ⟨p, rfl, hleads.memory⟩
    · exact .inl hforgotten
    · rw [hnone, Option.none_or]
      rcases ih with hforgotten | ⟨last, hlast, hmemory⟩
      · exact .inl ⟨hleft.text.trans hforgotten.1, hleft.tables.trans hforgotten.2⟩
      · exact .inr ⟨last, hlast, hleft.trans hmemory⟩

end Engine

end ComputedTables
