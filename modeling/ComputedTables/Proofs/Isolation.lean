import ComputedTables.Proofs.Actions

/-!
# Documents without references do not interfere

A pass over a text without references reads, of all that the engine keeps, the memory and the entry
of its own document and the settings (`pass_congr`, `localUpdate_changed`).  So of two engines that
are the same about a document, an action on it makes two that still are, with the same answer
(`act_same`), and an action on another document makes no difference to it (`act_other`).  In a run
of such actions a document can therefore not tell whether the actions on other documents were made
at all, nor in which order (`actions_isolated`).
-/

namespace ComputedTables

open Std (ExtTreeMap)

/-- What an action returns. -/
inductive Answer where
  | outcome (o : Outcome)
  | text (text : String)
  | removed (removed : Bool)
  | done
  deriving DecidableEq, Repr

/-- The answer without what it tells about the store. -/
def Answer.unsaved : Answer → Answer
  | .outcome o => .outcome { o with persisted := false }
  | answer => answer

namespace Action

/-- The one document that an action is about. -/
def document? : Action → Option String
  | .recalculate document _ _ _ => some document
  | .render document _ => some document
  | .forget document => some document
  | .invalidate document => some document
  | .rename _ _ _ | .withSettings _ => none

def isRename : Action → Bool
  | .rename _ _ _ => true
  | _ => false

/-- The action is no rename, and the text that it brings has no references. -/
def Local (action : Action) : Prop :=
  action.isRename = false ∧ ∀ text ∈ action.text?, textReferences text = []

instance (action : Action) : Decidable action.Local :=
  inferInstanceAs (Decidable (_ ∧ _))

/-- Whether an action is about the document or about no document. -/
def concerns (document : String) (action : Action) : Bool :=
  action.document?.all (· == document)

theorem eq_of_concerns {action : Action} {document name : String}
    (hc : action.concerns document = true) (h : action.document? = some name) :
    name = document := by
  simpa [concerns, h] using hc

theorem ne_of_not_concerns {action : Action} {document name : String}
    (hc : action.concerns document = false) (h : action.document? = some name) :
    document ≠ name := by
  rintro rfl
  simp [concerns, h] at hc

end Action

/-! ### The index -/

namespace Index

/-- Whether an update changes anything, and what becomes of the entry of the document, depends on
that entry alone, and all other entries stay. -/
structure LocalUpdate (document : String) (update : Index → Option Index) : Prop where
  isSome : ∀ {index other : Index}, index[document]? = other[document]? →
    (update index).isSome = (update other).isSome
  entry : ∀ {index other : Index}, index[document]? = other[document]? →
    ((update index).getD index)[document]? = ((update other).getD other)[document]?
  others : ∀ (index : Index) {name : String}, name ≠ document →
    ((update index).getD index)[name]? = index[name]?

variable {document : String} {set : VariableSet}

theorem localUpdate_remove? (document : String) :
    LocalUpdate document (·.remove? document) := by
  refine ⟨fun {index other} h => ?_, fun {index other} _ => ?_, fun index name hne => ?_⟩
  · simp only [remove?, ExtTreeMap.contains_eq_isSome_getElem?, h]
    split <;> rfl
  · rw [Engine.getElem?_remove?, Engine.getElem?_remove?, if_pos rfl, if_pos rfl]
  · rw [Engine.getElem?_remove?, if_neg hne.symm]

theorem localUpdate_replace? (policy : WhenEmpty) (document : String) (set : VariableSet) :
    LocalUpdate document (·.replace? policy document set) := by
  refine ⟨fun {index other} h => ?_, fun {index other} h => ?_, fun index name hne => ?_⟩
  · simp only [replace?, h]
    split
    · cases policy with
      | clear => exact (localUpdate_remove? document).isSome h
      | keep => rfl
    · split <;> rfl
  · simp only [replace?, h]
    split
    · cases policy with
      | clear => exact (localUpdate_remove? document).entry h
      | keep => exact h
    · split
      · exact h
      · simp
  · rcases hr : index.replace? policy document set with _ | changed
    · rfl
    · exact replace?_other hne hr

theorem localUpdate_merge? (document : String) (set : VariableSet) :
    LocalUpdate document (·.merge? document set) := by
  refine ⟨fun {index other} h => ?_, fun {index other} h => ?_, fun index name hne => ?_⟩
  · simp only [merge?, ExtTreeMap.getD_eq_getD_getElem?, h]
    split <;> rfl
  · simp only [merge?, ExtTreeMap.getD_eq_getD_getElem?, h]
    split
    · exact h
    · simp
  · simp only [merge?]
    split
    · rfl
    · rw [Option.getD_some, ExtTreeMap.getElem?_insert, if_neg]
      rw [Std.LawfulEqOrd.compare_eq_iff_eq]
      exact hne.symm

end Index

/-! ### Engines that are the same about a document -/

theorem Pass.visit_congr {lookup other : Lookup} {span : Span} (digest : Text.Digest)
    (formatter : Formatter) (scope : Option Span) (pass : Pass)
    (h : Lookup.AgreeOn (Grid.ofLines span.lines).references lookup other) :
    pass.visit digest lookup formatter scope span
      = pass.visit digest other formatter scope span := by
  unfold Pass.visit DocumentMemory.compute
  rw [computeTable_congr formatter h]

namespace Engine

/-- Two engines display numbers and take digests alike, and keep the same about a document. -/
structure SameAbout (document : String) (engine other : Engine) : Prop where
  settings : engine.settings = other.settings
  policy : engine.policy = other.policy
  digest : engine.digest = other.digest
  entry : engine.index[document]? = other.index[document]?
  memory : engine.memoryOf document = other.memoryOf document

variable {document : String} {engine other after : Engine}

theorem SameAbout.refl (document : String) (engine : Engine) : engine.SameAbout document engine :=
  ⟨rfl, rfl, rfl, rfl, rfl⟩

theorem SameAbout.symm (h : engine.SameAbout document other) : other.SameAbout document engine :=
  ⟨h.settings.symm, h.policy.symm, h.digest.symm, h.entry.symm, h.memory.symm⟩

theorem SameAbout.trans (h : engine.SameAbout document other)
    (h' : other.SameAbout document after) : engine.SameAbout document after :=
  ⟨h.settings.trans h'.settings, h.policy.trans h'.policy, h.digest.trans h'.digest,
    h.entry.trans h'.entry, h.memory.trans h'.memory⟩

/-- A pass over a text without references does not read the index. -/
theorem pass_congr {text : String} (h : engine.SameAbout document other)
    (hrefs : textReferences text = []) (scope : Option Span) :
    engine.pass document text scope = other.pass document text scope := by
  have hformatter : engine.formatter = other.formatter := congrArg Settings.formatter h.settings
  have hfold : ∀ pass, (formulaTables text).foldl
      (Pass.visit other.digest engine.index.lookup other.formatter scope) pass
      = (formulaTables text).foldl
        (Pass.visit other.digest other.index.lookup other.formatter scope) pass := by
    refine fun pass => List.foldl_ext _ _ _ fun pass span hspan => ?_
    refine pass.visit_congr other.digest other.formatter scope fun r hr => ?_
    have := mem_textReferences hspan hr
    simp [hrefs] at this
  unfold Engine.pass
  simp only [h.memory, h.digest, hformatter, hfold]

theorem localUpdate_changed (policy : WhenEmpty) (document : String) (pass : Pass) :
    Index.LocalUpdate document fun index =>
      if pass.complete then index.replace? policy document pass.collected
      else index.merge? document pass.collected := by
  rcases pass.complete with _ | _
  · exact Index.localUpdate_merge? document pass.collected
  · exact Index.localUpdate_replace? policy document pass.collected

theorem publish_same (h : engine.SameAbout document other) (pass : Pass) :
    (engine.publish document pass).2.SameAbout document (other.publish document pass).2 ∧
      { (engine.publish document pass).1 with persisted := false }
        = { (other.publish document pass).1 with persisted := false } := by
  have hlocal := localUpdate_changed engine.policy document pass
  obtain ⟨hs, hp, hi, hm⟩ := publish_frame engine document pass
  obtain ⟨hs', hp', hi', hm'⟩ := publish_frame other document pass
  have hchanged : (engine.changedBy? document pass).isSome
      = (other.changedBy? document pass).isSome := by
    unfold changedBy?
    rw [← h.policy]
    exact hlocal.isSome h.entry
  refine ⟨⟨?_, ?_, ?_, ?_, ?_⟩, ?_⟩
  · rw [hs, hs', h.settings]
  · rw [hp, hp', h.policy]
  · rw [digest_publish, digest_publish, h.digest]
  · rw [hi, hi']
    unfold changedBy?
    rw [← h.policy]
    exact hlocal.entry h.entry
  · rw [hm, hm', if_pos rfl, if_pos rfl]
  · rw [publish_eq, publish_eq]
    revert hchanged
    rcases engine.changedBy? document pass with _ | index <;>
      rcases other.changedBy? document pass with _ | index' <;> simp [adopt]

theorem publish_other (engine : Engine) {name : String} (hne : document ≠ name) (pass : Pass) :
    (engine.publish name pass).2.SameAbout document engine := by
  obtain ⟨hs, hp, hi, hm⟩ := publish_frame engine name pass
  refine ⟨hs, hp, digest_publish engine name pass, ?_, ?_⟩
  · rw [hi]
    exact (localUpdate_changed engine.policy name pass).others engine.index hne
  · rw [hm, if_neg hne.symm]

/-! ### Actions -/

theorem recalculate_same {text : String} (h : engine.SameAbout document other)
    (hrefs : textReferences text = []) (cursor : Option Nat) (quiet : Bool) :
    (engine.recalculate document text cursor quiet).2.SameAbout document
        (other.recalculate document text cursor quiet).2 ∧
      { (engine.recalculate document text cursor quiet).1 with persisted := false }
        = { (other.recalculate document text cursor quiet).1 with persisted := false } := by
  have hskips : engine.skips document text quiet = other.skips document text quiet := by
    unfold skips
    rw [h.memory, h.digest]
  rcases hs : engine.skips document text quiet with _ | _
  · rw [recalculate_of_not_skips hs, recalculate_of_not_skips (hskips ▸ hs), pass_congr h hrefs]
    exact publish_same h _
  · rw [recalculate_of_skips hs, recalculate_of_skips (hskips ▸ hs)]
    exact ⟨h, rfl⟩

theorem recalculate_other (engine : Engine) {name : String} (hne : document ≠ name)
    (text : String) (cursor : Option Nat) (quiet : Bool) :
    (engine.recalculate name text cursor quiet).2.SameAbout document engine := by
  rcases hs : engine.skips name text quiet with _ | _
  · rw [recalculate_of_not_skips hs]
    exact publish_other engine hne _
  · rw [recalculate_of_skips hs]
    exact .refl document engine

/-- Nothing but the store depends on whether the index is saved after a document is forgotten. -/
theorem forget_frame (engine : Engine) (name : String) :
    let after := (engine.forget name).2
    (engine.forget name).1 = (engine.index.remove? name).isSome ∧
      after.settings = engine.settings ∧ after.policy = engine.policy ∧
      after.index = (engine.index.remove? name).getD engine.index ∧
      ∀ document, after.memoryOf document = if name = document then
        (engine.memoryOf name).invalidated.withoutCells else engine.memoryOf document := by
  intro after
  have hmemory : ∀ document, ((engine.invalidate name).dropCells name).memoryOf document
      = if name = document then (engine.memoryOf name).invalidated.withoutCells
        else engine.memoryOf document := by
    intro document
    unfold dropCells
    rw [memoryOf_modifyMemory, memoryOf_invalidate_self]
    split
    · rfl
    · exact memoryOf_invalidate_other engine (Ne.symm ‹_›)
  have hindex : (engine.invalidate name).index = engine.index := rfl
  show _ ∧ (engine.forget name).2.settings = _ ∧ (engine.forget name).2.policy = _ ∧
    (engine.forget name).2.index = _ ∧ ∀ document, (engine.forget name).2.memoryOf document = _
  unfold Engine.forget removeEntry
  rw [hindex]
  rcases engine.index.remove? name with _ | index
  · exact ⟨rfl, rfl, rfl, rfl, hmemory⟩
  · exact ⟨rfl, rfl, rfl, rfl, hmemory⟩

theorem memoryOf_withSettings (engine : Engine) (settings : Settings) (document : String) :
    (engine.withSettings settings).memoryOf document = (engine.memoryOf document).invalidated := by
  unfold memoryOf Engine.withSettings
  rw [ExtTreeMap.getD_eq_getD_getElem?, ExtTreeMap.getElem?_map,
    ExtTreeMap.getD_eq_getD_getElem?]
  rcases engine.memory[document]? with _ | m <;> rfl

/-- What an action returns to the one who asked for it. -/
def answer (engine : Engine) : Action → Answer
  | .recalculate document text cursor quiet =>
    .outcome (engine.recalculate document text cursor quiet).1
  | .render document text => .text (engine.render document text).1
  | .rename old new text => .outcome (engine.rename old new text).1
  | .forget document => .removed (engine.forget document).1
  | .invalidate _ | .withSettings _ => .done

/-- An action on a document, or on the settings, makes the same of what is kept about it. -/
theorem act_same {action : Action} (h : engine.SameAbout document other) (hlocal : action.Local)
    (hconcerns : action.concerns document = true) :
    (engine.act action).2.SameAbout document (other.act action).2 ∧
      (engine.answer action).unsaved = (other.answer action).unsaved := by
  match action with
  | .recalculate d text cursor quiet =>
    obtain rfl := Action.eq_of_concerns hconcerns rfl
    obtain ⟨hsame, houtcome⟩ := recalculate_same h (hlocal.2 text rfl) cursor quiet
    exact ⟨hsame, congrArg Answer.outcome houtcome⟩
  | .render d text =>
    obtain rfl := Action.eq_of_concerns hconcerns rfl
    obtain ⟨hsame, -⟩ := recalculate_same h (hlocal.2 text rfl) none false
    refine ⟨hsame, congrArg Answer.text ?_⟩
    show (engine.recalculate d text none false).2.withComputedTables d text
      = (other.recalculate d text none false).2.withComputedTables d text
    unfold withComputedTables computedLines?
    rw [hsame.memory]
  | .forget d =>
    obtain rfl := Action.eq_of_concerns hconcerns rfl
    obtain ⟨hr, hs, hp, hi, hm⟩ := forget_frame engine d
    obtain ⟨hr', hs', hp', hi', hm'⟩ := forget_frame other d
    have hremove := Index.localUpdate_remove? d
    refine ⟨⟨?_, ?_, ?_, ?_, ?_⟩, congrArg Answer.removed ?_⟩
    · exact hs.trans (h.settings.trans hs'.symm)
    · exact hp.trans (h.policy.trans hp'.symm)
    · exact (drops_forget engine d).digest.trans
        (h.digest.trans (drops_forget other d).digest.symm)
    · show (engine.forget d).2.index[d]? = (other.forget d).2.index[d]?
      rw [hi, hi']
      exact hremove.entry h.entry
    · show (engine.forget d).2.memoryOf d = (other.forget d).2.memoryOf d
      rw [hm, hm', if_pos rfl, if_pos rfl, h.memory]
    · rw [hr, hr']
      exact hremove.isSome h.entry
  | .invalidate d =>
    obtain rfl := Action.eq_of_concerns hconcerns rfl
    refine ⟨⟨h.settings, h.policy, h.digest, h.entry, ?_⟩, rfl⟩
    show (engine.invalidate d).memoryOf d = (other.invalidate d).memoryOf d
    rw [memoryOf_invalidate_self, memoryOf_invalidate_self, h.memory]
  | .withSettings settings =>
    refine ⟨⟨rfl, h.policy, h.digest, h.entry, ?_⟩, rfl⟩
    show (engine.withSettings settings).memoryOf document
      = (other.withSettings settings).memoryOf document
    rw [memoryOf_withSettings, memoryOf_withSettings, h.memory]
  | .rename _ _ _ => cases hlocal.1

/-- An action on another document makes no difference to a document. -/
theorem act_other (engine : Engine) {action : Action} (hlocal : action.Local)
    (hother : action.concerns document = false) :
    (engine.act action).2.SameAbout document engine := by
  match action with
  | .recalculate d text cursor quiet =>
    exact recalculate_other engine (Action.ne_of_not_concerns hother rfl) text cursor quiet
  | .render d text =>
    exact recalculate_other engine (Action.ne_of_not_concerns hother rfl) text none false
  | .forget d =>
    have hne := Action.ne_of_not_concerns hother rfl
    obtain ⟨-, hs, hp, hi, hm⟩ := forget_frame engine d
    refine ⟨hs, hp, (drops_forget engine d).digest, ?_, ?_⟩
    · show (engine.forget d).2.index[document]? = _
      rw [hi]
      exact (Index.localUpdate_remove? d).others engine.index hne
    · show (engine.forget d).2.memoryOf document = _
      rw [hm, if_neg hne.symm]
  | .invalidate d =>
    have hne := Action.ne_of_not_concerns hother rfl
    exact ⟨rfl, rfl, rfl, rfl, memoryOf_invalidate_other engine hne⟩
  | .withSettings _ => cases hother
  | .rename _ _ _ => cases hlocal.1

/-! ### Runs -/

/-- What the actions on a document return in a run, without what they tell about the store. -/
def answersTo (engine : Engine) (document : String) : List Action → List Answer
  | [] => []
  | action :: actions =>
    let later := (engine.act action).2.answersTo document actions
    if action.document? = some document then (engine.answer action).unsaved :: later else later

/-- A run and its actions on one document and on the settings, made on engines that are the same
about it, leave it the same. -/
theorem actAll_same (document : String) : ∀ (actions : List Action) {engine other : Engine},
    engine.SameAbout document other → (∀ action ∈ actions, action.Local) →
      (engine.actAll actions).SameAbout document
          (other.actAll (actions.filter (Action.concerns document))) ∧
        engine.answersTo document actions
          = other.answersTo document (actions.filter (Action.concerns document))
  | [], _, _, h, _ => ⟨h, rfl⟩
  | action :: actions, engine, other, h, hlocal => by
    have hfirst := hlocal action List.mem_cons_self
    have hrest : ∀ action ∈ actions, action.Local := fun a ha =>
      hlocal a (List.mem_cons_of_mem _ ha)
    rcases hc : action.concerns document with _ | _
    · have hnot : action.document? ≠ some document := fun he =>
        Action.ne_of_not_concerns hc he rfl
      obtain ⟨hsame, hanswers⟩ :=
        actAll_same document actions ((act_other engine hfirst hc).trans h) hrest
      rw [List.filter_cons_of_neg (by simp [hc])]
      refine ⟨hsame, ?_⟩
      rw [← hanswers, answersTo, if_neg hnot]
    · obtain ⟨hsame, hanswer⟩ := act_same h hfirst hc
      obtain ⟨hrun, hanswers⟩ := actAll_same document actions hsame hrest
      rw [List.filter_cons_of_pos hc]
      refine ⟨hrun, ?_⟩
      simp only [answersTo, hanswer, hanswers]

theorem filter_swap (document : String) (before after : List Action) {a b : Action}
    {name name' : String} (ha : a.document? = some name) (hb : b.document? = some name')
    (hne : name ≠ name') :
    (before ++ a :: b :: after).filter (Action.concerns document)
      = (before ++ b :: a :: after).filter (Action.concerns document) := by
  have hnot : ¬(a.concerns document = true ∧ b.concerns document = true) := by
    simp only [Action.concerns, ha, hb, Option.all_some, beq_iff_eq]
    rintro ⟨rfl, rfl⟩
    exact hne rfl
  rcases hca : a.concerns document with _ | _
  · simp [List.filter_cons, hca]
  · have hcb : b.concerns document = false := Bool.eq_false_iff.2 fun hcb => hnot ⟨hca, hcb⟩
    simp [hca, hcb]

/-- In a run of actions whose texts have no references, everything that is kept about a document
and everything that the actions on it return is as if only these actions were made, and those on
the settings.  So actions on different documents commute. -/
theorem actions_isolated (start : Engine) {actions : List Action}
    (hlocal : ∀ action ∈ actions, action.Local) :
    (∀ document,
      let own := actions.filter (Action.concerns document)
      (start.actAll actions).SameAbout document (start.actAll own) ∧
        start.answersTo document actions = start.answersTo document own) ∧
    ∀ before a b after name name', actions = before ++ a :: b :: after →
      a.document? = some name → b.document? = some name' → name ≠ name' →
        let swapped := before ++ b :: a :: after
        (start.actAll actions).index = (start.actAll swapped).index ∧
          ∀ document, (start.actAll actions).SameAbout document (start.actAll swapped) ∧
            start.answersTo document actions = start.answersTo document swapped := by
  have hown : ∀ document, _ := fun document =>
    actAll_same document actions (.refl document start) hlocal
  refine ⟨hown, fun before a b after name name' hactions ha hb hne => ?_⟩
  intro swapped
  have hswappedLocal : ∀ action ∈ swapped, action.Local := by
    intro action hm
    refine hlocal action ?_
    rw [hactions]
    simp only [swapped, List.mem_append, List.mem_cons] at hm ⊢
    tauto
  have hsame : ∀ document, (start.actAll actions).SameAbout document (start.actAll swapped) ∧
      start.answersTo document actions = start.answersTo document swapped := by
    intro document
    obtain ⟨hswapped, hanswers⟩ :=
      actAll_same document swapped (.refl document start) hswappedLocal
    obtain ⟨hactual, hactualAnswers⟩ := hown document
    have hfilter : actions.filter (Action.concerns document)
        = swapped.filter (Action.concerns document) := by
      rw [hactions]
      exact filter_swap document before after ha hb hne
    rw [hfilter] at hactual hactualAnswers
    exact ⟨hactual.trans hswapped.symm, hactualAnswers.trans hanswers.symm⟩
  exact ⟨ExtTreeMap.ext_getElem? fun document => (hsame document).1.entry, hsame⟩

theorem actions_isolated_failing_save :
    let text := "| a | 1 |\n| b | =SUM(col) |"
    let edited := "| a | 2 |\n| b | =SUM(col) |"
    let start : Engine := { store := { saveFails := fun tries => tries == 1 } }
    let before := [Action.withSettings { precision := 3 }]
    let a := Action.recalculate "m" text none false
    let b := Action.recalculate "n" text (some 1) true
    let after := [Action.forget "m", .render "n" edited]
    let own := [Action.withSettings { precision := 3 }, b, .render "n" edited]
    let actions := before ++ a :: b :: after
    (∀ action ∈ actions, action.Local) ∧
      (start.actAll actions).SameAbout "n" (start.actAll own) ∧
      start.answersTo "n" actions = start.answersTo "n" own ∧
      (start.actAll actions).index = (start.actAll (before ++ b :: a :: after)).index := by
  intro text edited start before a b after own actions
  have hlocal : ∀ action ∈ actions, action.Local := by decide +kernel
  obtain ⟨hown, hswap⟩ := actions_isolated start hlocal
  exact ⟨hlocal, (hown "n").1, (hown "n").2,
    (hswap before a b after "m" "n" rfl rfl rfl (by decide)).1⟩

end Engine

end ComputedTables
