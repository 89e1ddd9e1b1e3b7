import ComputedTables.Proofs.BulkRounds
import ComputedTables.Proofs.FullPass

/-!
# Two rounds are enough

On an engine that remembers nothing, a bulk pass takes the documents into the index one after the
other, each evaluated against the index as it is then (`run_index`).  Suppose that a document refers
only to documents without references of their own.  The first round settles those, the second round
leaves them, and evaluates all others against entries that are final.  So in the end the entry of
each document is what its text publishes when it is evaluated against that very index
(`run_consistent`), and the order of the queue and the size of the batches make no difference.
-/

namespace ComputedTables

open Std (ExtTreeMap)

/-! ### Taking documents into an index -/

namespace Index

/-- The index after a document, given by its name and its text, has been evaluated against it. -/
def take (formatter : Formatter) (index : Index) (d : String × String) : Index :=
  index.publish d.1 (publishedVariables index.lookup formatter d.2)

variable {formatter : Formatter}

theorem agreeOn_lookup {refs : List (String × String)} {index other : Index}
    (h : ∀ r ∈ refs, index[r.1]? = other[r.1]?) :
    Lookup.AgreeOn refs index.lookup other.lookup := by
  intro r hr
  unfold Index.lookup
  rw [h r hr]

theorem published_of_plain {text : String} (h : textReferences text = []) (lookup other : Lookup) :
    publishedVariables lookup formatter text = publishedVariables other formatter text := by
  refine publishedVariables_congr formatter fun r hr => ?_
  rw [h] at hr
  cases hr

theorem foldl_take_other {name : String} : ∀ (docs : List (String × String)) (index : Index),
    name ∉ docs.map Prod.fst → (docs.foldl (take formatter) index)[name]? = index[name]?
  | [], _, _ => rfl
  | d :: docs, index, h => by
    rw [List.map_cons, List.mem_cons, not_or] at h
    rw [List.foldl_cons, foldl_take_other docs _ h.2]
    exact publish_other h.1

/-- The last change of a document's entry is that of its own turn. -/
theorem foldl_take_turn {docs : List (String × String)} (hd : (docs.map Prod.fst).Nodup)
    {d : String × String} (h : d ∈ docs) (index : Index) : ∃ before after,
      docs = before ++ d :: after ∧ (docs.foldl (take formatter) index)[d.1]?
        = ((before.foldl (take formatter) index).take formatter d)[d.1]? ∧
      d.1 ∉ before.map Prod.fst := by
  obtain ⟨before, after, rfl⟩ := List.append_of_mem h
  rw [List.map_append, List.map_cons, List.nodup_append] at hd
  refine ⟨before, after, rfl, ?_, fun hb => hd.2.2 _ hb _ List.mem_cons_self rfl⟩
  rw [List.foldl_append, List.foldl_cons,
    foldl_take_other after _ (List.nodup_cons.1 hd.2.1).1]

theorem foldl_take_agrees {docs : List (String × String)} (hd : (docs.map Prod.fst).Nodup)
    {d : String × String} (h : d ∈ docs) (index : Index) : ∃ before after,
      docs = before ++ d :: after ∧ entriesAgree (docs.foldl (take formatter) index)[d.1]?
        (publishedVariables (before.foldl (take formatter) index).lookup formatter d.2).entry
          = true := by
  obtain ⟨before, after, hdocs, hturn, -⟩ := foldl_take_turn hd h index
  refine ⟨before, after, hdocs, ?_⟩
  rw [hturn]
  exact publish_self (publishedVariables_finite _ _ _)

/-- The entry of a document without references is that of its text. -/
def Settled (formatter : Formatter) (index : Index) (d : String × String) : Prop :=
  textReferences d.2 = [] → entriesAgree index[d.1]?
    (publishedVariables Lookup.empty formatter d.2).entry = true

theorem foldl_take_settled {docs : List (String × String)} (hd : (docs.map Prod.fst).Nodup)
    (index : Index) {d : String × String} (h : d ∈ docs) :
    Settled formatter (docs.foldl (take formatter) index) d := by
  intro hplain
  obtain ⟨before, after, -, hagrees⟩ := foldl_take_agrees hd h index
  rwa [published_of_plain hplain _ Lookup.empty] at hagrees

theorem foldl_take_exact {docs : List (String × String)} (hd : (docs.map Prod.fst).Nodup)
    {index : Index} {d : String × String} (h : d ∈ docs) (hplain : textReferences d.2 = [])
    (hnone : index[d.1]? = none) : (docs.foldl (take formatter) index)[d.1]?
      = (publishedVariables Lookup.empty formatter d.2).entry := by
  obtain ⟨before, after, -, hturn, hb⟩ := foldl_take_turn hd h index
  have hbefore : (before.foldl (take formatter) index)[d.1]? = none := by
    rw [foldl_take_other before index hb, hnone]
  rw [hturn, ← published_of_plain hplain _ Lookup.empty]
  exact publish_of_not_mem hbefore

/-- Taking a settled document once more changes nothing. -/
theorem take_of_settled {index : Index} {d : String × String} (h : Settled formatter index d)
    (hplain : textReferences d.2 = []) : index.take formatter d = index := by
  unfold take
  rw [published_of_plain hplain _ Lookup.empty]
  exact publish_eq_self (h hplain)

/-- Once the documents without references are settled, their entries stay. -/
theorem foldl_take_keeps {docs : List (String × String)} (hd : (docs.map Prod.fst).Nodup) :
    ∀ (again : List (String × String)) (index : Index), (∀ d ∈ again, d ∈ docs) →
      (∀ d ∈ docs, Settled formatter index d) → ∀ d ∈ docs, textReferences d.2 = [] →
        (again.foldl (take formatter) index)[d.1]? = index[d.1]?
  | [], _, _, _, _, _, _ => rfl
  | e :: again, index, hsub, hsettled, d, hm, hplain => by
    have hrest : ∀ d ∈ again, d ∈ docs := fun d h => hsub d (List.mem_cons_of_mem _ h)
    have he := hsub e List.mem_cons_self
    rw [List.foldl_cons]
    by_cases hr : textReferences e.2 = []
    · rw [take_of_settled (hsettled e he) hr]
      exact foldl_take_keeps hd again index hrest hsettled d hm hplain
    · -- only the entry of a document with references changes, and none of the settled has that name
      have hother : ∀ d ∈ docs, textReferences d.2 = [] →
          (index.take formatter e)[d.1]? = index[d.1]? := by
        intro d hm hplain
        refine publish_other fun hname => hr ?_
        rw [← List.inj_on_of_nodup_map hd hm he hname]
        exact hplain
      rw [foldl_take_keeps hd again _ hrest ?_ d hm hplain, hother d hm hplain]
      intro d hm hplain
      rw [hother d hm hplain]
      exact hsettled d hm hplain

/-- Documents with references are named as such, and refer to no document that has references. -/
structure RefersOneStep (docs : List (String × String)) : Prop where
  named : ∀ d ∈ docs, textReferences d.2 ≠ [] → hasReferences d.2 = true
  plain : ∀ d ∈ docs, ∀ r ∈ textReferences d.2, ∀ e ∈ docs, e.1 = r.1 → textReferences e.2 = []

/-- The index after two rounds over documents, the second one over those with references. -/
def twoRounds (formatter : Formatter) (docs : List (String × String)) (index : Index) : Index :=
  (docs.filter fun d => hasReferences d.2).foldl (take formatter)
    (docs.foldl (take formatter) index)

variable {docs : List (String × String)}

theorem twoRounds_other (index : Index) {name : String} (h : name ∉ docs.map Prod.fst) :
    (twoRounds formatter docs index)[name]? = index[name]? := by
  unfold twoRounds
  rw [foldl_take_other _ _ fun hm => h ?_, foldl_take_other docs index h]
  obtain ⟨d, hd, rfl⟩ := List.mem_map.1 hm
  exact List.mem_map_of_mem (List.mem_of_mem_filter hd)

theorem twoRounds_plain (hd : (docs.map Prod.fst).Nodup) (index : Index) {d : String × String}
    (h : d ∈ docs) (hplain : textReferences d.2 = []) :
    (twoRounds formatter docs index)[d.1]? = (docs.foldl (take formatter) index)[d.1]? :=
  foldl_take_keeps hd _ _ (fun _ => List.mem_of_mem_filter)
    (fun _ => foldl_take_settled hd index) d h hplain

/-- After two rounds the entry of each document is that of its text, evaluated against the index
there is then. -/
theorem twoRounds_agrees (hd : (docs.map Prod.fst).Nodup) (hr : RefersOneStep docs) (index : Index)
    {d : String × String} (h : d ∈ docs) : entriesAgree (twoRounds formatter docs index)[d.1]?
      (publishedVariables (twoRounds formatter docs index).lookup formatter d.2).entry = true := by
  by_cases hplain : textReferences d.2 = []
  · rw [twoRounds_plain hd index h hplain, published_of_plain hplain _ Lookup.empty]
    exact foldl_take_settled hd index h hplain
  · have hagain : d ∈ docs.filter fun d => hasReferences d.2 :=
      List.mem_filter.2 ⟨h, hr.named d h hplain⟩
    have hnodup : ((docs.filter fun d => hasReferences d.2).map Prod.fst).Nodup :=
      (List.filter_sublist.map Prod.fst).nodup hd
    obtain ⟨before, after, hsplit, hagrees⟩ := foldl_take_agrees hnodup hagain
      (docs.foldl (take formatter) index)
    have hbefore : ∀ e ∈ before, e ∈ docs := fun e he =>
      List.mem_of_mem_filter (hsplit ▸ List.mem_append_left _ he)
    -- what the text refers to has its final entry already
    have hfinal : ∀ r ∈ textReferences d.2,
        (before.foldl (take formatter) (docs.foldl (take formatter) index))[r.1]?
          = (twoRounds formatter docs index)[r.1]? := by
      intro r hm
      by_cases hin : r.1 ∈ docs.map Prod.fst
      · obtain ⟨e, he, hname⟩ := List.mem_map.1 hin
        have heplain := hr.plain d h r hm e he hname
        rw [← hname, twoRounds_plain hd index he heplain]
        exact foldl_take_keeps hd before _ hbefore (fun _ => foldl_take_settled hd index) e he
          heplain
      · rw [twoRounds_other index hin, foldl_take_other _ _ fun hm => hin ?_,
          foldl_take_other docs index hin]
        obtain ⟨e, he, hname⟩ := List.mem_map.1 hm
        exact hname ▸ List.mem_map_of_mem (hbefore e he)
    rw [← publishedVariables_congr formatter (agreeOn_lookup hfinal)]
    exact hagrees

/-- Neither the order of the documents nor anything else makes a difference to the index after two
rounds, if there were no entries of the documents before. -/
theorem twoRounds_perm {docs' : List (String × String)} (hd : (docs.map Prod.fst).Nodup)
    (hr : RefersOneStep docs) (hperm : docs'.Perm docs) {index : Index}
    (hnone : ∀ d ∈ docs, index[d.1]? = none) {d : String × String} (h : d ∈ docs) :
    entriesAgree (twoRounds formatter docs index)[d.1]? (twoRounds formatter docs' index)[d.1]?
      = true := by
  have hd' : (docs'.map Prod.fst).Nodup := (hperm.map Prod.fst).nodup_iff.2 hd
  have hr' : RefersOneStep docs' :=
    ⟨fun d hm => hr.named d (hperm.mem_iff.1 hm), fun d hm r hmr e he =>
      hr.plain d (hperm.mem_iff.1 hm) r hmr e (hperm.mem_iff.1 he)⟩
  have hrefs : ∀ r ∈ textReferences d.2, (twoRounds formatter docs index)[r.1]?
      = (twoRounds formatter docs' index)[r.1]? := by
    intro r hm
    by_cases hin : r.1 ∈ docs.map Prod.fst
    · obtain ⟨e, he, hname⟩ := List.mem_map.1 hin
      have heplain := hr.plain d h r hm e he hname
      have he' := hperm.mem_iff.2 he
      rw [← hname, twoRounds_plain hd index he heplain, twoRounds_plain hd' index he' heplain,
        foldl_take_exact hd he heplain (hnone e he), foldl_take_exact hd' he' heplain (hnone e he)]
    · have hin' : r.1 ∉ docs'.map Prod.fst := fun hm => hin ((hperm.map Prod.fst).mem_iff.1 hm)
      rw [twoRounds_other index hin, twoRounds_other index hin']
  have hagrees : entriesAgree (twoRounds formatter docs index)[d.1]? (publishedVariables
      (twoRounds formatter docs index).lookup formatter d.2).entry = true :=
    twoRounds_agrees hd hr index h
  rw [publishedVariables_congr formatter (agreeOn_lookup hrefs)] at hagrees
  exact entriesAgree_trans hagrees
    (entriesAgree_symm (twoRounds_agrees hd' hr' index (hperm.mem_iff.2 h)))

end Index

/-! ### The index after a bulk pass -/

namespace Bulk

variable {source : Source}

theorem mem_indexedTexts {ids : List Document} {d : String × String} :
    d ∈ source.indexedTexts ids ↔ ∃ id ∈ ids, source.read id = .ok d.2 ∧
      mayHoldFormulas d.2 = true ∧ id.name = d.1 := by
  unfold Source.indexedTexts
  rw [List.mem_filterMap]
  refine exists_congr fun id => and_congr_right fun _ => ?_
  rcases hr : source.read id with failure | text
  · simp
  · simp only [Except.ok.injEq]
    constructor
    · intro h
      split at h
      · cases h
        exact ⟨rfl, ‹_›, rfl⟩
      · cases h
    · rintro ⟨rfl, hm, hname⟩
      rw [if_pos hm, hname]

theorem indexedTexts_names_sublist : ∀ (ids : List Document),
    ((source.indexedTexts ids).map Prod.fst).Sublist (ids.map Document.name)
  | [] => List.Sublist.slnil
  | id :: ids => by
    have ih := indexedTexts_names_sublist ids
    unfold Source.indexedTexts at ih ⊢
    rw [List.filterMap_cons, List.map_cons]
    split
    · exact ih.cons _
    · rename_i d hd
      have hname : d.1 = id.name := by
        split at hd
        · split at hd
          · cases hd
            rfl
          · cases hd
        · cases hd
      rw [List.map_cons, hname]
      exact ih.cons_cons _

/-- What a bulk pass changes besides the memory of the documents it passes over. -/
structure Indexed (ids : List Document) (source : Source) (engine after : Engine) : Prop where
  policy : after.policy = engine.policy
  settings : after.settings = engine.settings
  index : after.index
    = (source.indexedTexts ids).foldl (Index.take engine.formatter) engine.index
  memory : ∀ other, (∀ id ∈ ids, id.name ≠ other) → after.memoryOf other = engine.memoryOf other

theorem Indexed.of_passed {id : Document} {text : String} {engine after : Engine}
    (hr : source.read id = .ok text) (hm : mayHoldFormulas text = true)
    (h : engine.Passed after id.name text) : Indexed [id] source engine after := by
  refine ⟨h.policy, h.settings, ?_, fun other ho =>
    h.memory other fun he => ho id List.mem_cons_self he.symm⟩
  have htexts : source.indexedTexts [id] = [(id.name, text)] := by
    simp [Source.indexedTexts, hr, hm]
  rw [htexts]
  exact h.index

theorem Indexed.trans {ids : List Document} {id : Document} {engine middle after : Engine}
    (h : Indexed [id] source engine middle) (h' : Indexed ids source middle after) :
    Indexed (id :: ids) source engine after := by
  refine ⟨h'.policy.trans h.policy, h'.settings.trans h.settings, ?_, fun other ho => ?_⟩
  · have hf : middle.formatter = engine.formatter := congrArg Settings.formatter h.settings
    have htexts : source.indexedTexts (id :: ids)
        = source.indexedTexts [id] ++ source.indexedTexts ids := by
      unfold Source.indexedTexts
      rw [← List.filterMap_append, List.singleton_append]
    rw [h'.index, h.index, hf, htexts, List.foldl_append]
  · rw [h'.memory other fun id hm => ho id (List.mem_cons_of_mem _ hm)]
    exact h.memory other fun id hm => ho id (List.mem_singleton.1 hm ▸ List.mem_cons_self)

theorem indexed_visited {engine : Engine} {id : Document} (hpolicy : engine.policy = .clear)
    (htext : (engine.memoryOf id.name).text = none)
    (htables : (engine.memoryOf id.name).tables = ∅) :
    Indexed [id] source engine (visited source engine id) := by
  unfold visited
  rcases hr : source.read id with failure | text
  · refine ⟨rfl, rfl, ?_, fun _ _ => rfl⟩
    simp [Source.indexedTexts, hr]
  · by_cases hm : mayHoldFormulas text = true
    · simp only [hm, ↓reduceIte]
      rcases Engine.recalculate_whole hpolicy
        (DocumentMemory.trusts_of_tables_empty htables _ _ _ _) true with ⟨-, hd, -⟩ | hpassed
      · rw [htext] at hd
        cases hd
      · exact .of_passed hr hm hpassed
    · simp only [hm, Bool.false_eq_true, ↓reduceIte]
      refine ⟨rfl, rfl, ?_, fun _ _ => rfl⟩
      simp [Source.indexedTexts, hr, hm]

theorem indexed_foldl_visited : ∀ (ids : List Document) {engine : Engine},
    engine.policy = .clear → (ids.map Document.name).Nodup →
      (∀ id ∈ ids, (engine.memoryOf id.name).text = none ∧
        (engine.memoryOf id.name).tables = ∅) →
      Indexed ids source engine (ids.foldl (visited source) engine)
  | [], _, _, _, _ => ⟨rfl, rfl, rfl, fun _ _ => rfl⟩
  | id :: ids, engine, hpolicy, hd, hempty => by
    rw [List.map_cons, List.nodup_cons] at hd
    have hfirst := hempty id List.mem_cons_self
    have hvisited : Indexed [id] source engine (visited source engine id) :=
      indexed_visited hpolicy hfirst.1 hfirst.2
    refine hvisited.trans (indexed_foldl_visited ids (hvisited.policy.trans hpolicy) hd.2 ?_)
    intro id' hm
    rw [hvisited.memory]
    · exact hempty id' (List.mem_cons_of_mem _ hm)
    · intro i hi he
      rw [List.mem_singleton.1 hi] at he
      exact hd.1 (he ▸ List.mem_map_of_mem hm)

theorem indexed_revisit {engine : Engine} {id : Document} (hpolicy : engine.policy = .clear)
    (hrefers : source.refers id = true) :
    Indexed [id] source engine (revisit source engine id) := by
  unfold revisit
  unfold Source.refers at hrefers
  rcases hr : source.read id with failure | text
  · rw [hr] at hrefers
    cases hrefers
  · rw [hr] at hrefers
    rw [Bool.and_eq_true] at hrefers
    have hempty := Engine.memoryOf_invalidate_self engine id.name
    have htables : ((engine.invalidate id.name).memoryOf id.name).tables = ∅ := by
      rw [hempty]
      rfl
    have hinvalidated : (engine.invalidate id.name).policy = .clear := hpolicy
    rcases Engine.recalculate_whole hinvalidated
      (DocumentMemory.trusts_of_tables_empty htables _ _ _ _) true with ⟨-, hd, -⟩ | hpassed
    · rw [hempty] at hd
      cases hd
    · have h := Indexed.of_passed hr hrefers.1 hpassed
      refine ⟨h.policy, h.settings, h.index, fun other ho => (h.memory other ho).trans ?_⟩
      exact Engine.memoryOf_invalidate_other engine fun he => ho id List.mem_cons_self he.symm

theorem indexed_foldl_revisit : ∀ (ids : List Document) {engine : Engine},
    engine.policy = .clear → (∀ id ∈ ids, source.refers id = true) →
      Indexed ids source engine (ids.foldl (revisit source) engine)
  | [], _, _, _ => ⟨rfl, rfl, rfl, fun _ _ => rfl⟩
  | id :: ids, engine, hpolicy, hrefers => by
    have hfirst := indexed_revisit hpolicy (hrefers id List.mem_cons_self)
    exact hfirst.trans (indexed_foldl_revisit ids (hfirst.policy.trans hpolicy)
      fun id hm => hrefers id (List.mem_cons_of_mem _ hm))

/-- A bulk pass over documents of which nothing is remembered is two rounds over their texts. -/
theorem run_index {queue : List Document} {engine : Engine} (hpolicy : engine.policy = .clear)
    (hforgotten : ∀ document, (engine.memoryOf document).text = none ∧
      (engine.memoryOf document).tables = ∅) (hd : (queue.map Document.name).Nodup) (batch : Nat) :
    ((create queue batch).run source engine).2.index
      = Index.twoRounds engine.formatter (source.indexedTexts queue) engine.index := by
  have hfirst : Indexed queue source engine (queue.foldl (visited source) engine) :=
    indexed_foldl_visited queue hpolicy hd fun id _ => hforgotten id.name
  have hsecond := indexed_foldl_revisit (queue.filter source.refers)
    (hfirst.policy.trans hpolicy) fun id hm => (List.mem_filter.1 hm).2
  have hf : (queue.foldl (visited source) engine).formatter = engine.formatter :=
    congrArg Settings.formatter hfirst.settings
  rw [run_eq_rounds, hsecond.index, hfirst.index, hf, Source.indexedTexts_refers]
  rfl

/-! ### Queues in any order -/

section

variable {queue : List Document} {engine : Engine}

theorem mem_indexedTexts_of_perm (hq : queue.Perm source.list) {d : String × String} :
    d ∈ source.indexedTexts queue ↔ ∃ id ∈ source.list, source.read id = .ok d.2 ∧
      mayHoldFormulas d.2 = true ∧ id.name = d.1 := by
  rw [mem_indexedTexts]
  exact exists_congr fun id => and_congr_left fun _ => hq.mem_iff

theorem indexedTexts_nodup (hnames : (source.list.map Document.name).Nodup)
    (hq : queue.Perm source.list) : ((source.indexedTexts queue).map Prod.fst).Nodup :=
  (indexedTexts_names_sublist queue).nodup ((hq.map Document.name).nodup_iff.2 hnames)

theorem refersOneStep_of_perm (hq : queue.Perm source.list)
    (hnamed : ∀ id ∈ source.list, ∀ text, source.read id = .ok text →
      textReferences text ≠ [] → hasReferences text = true)
    (hplain : ∀ id ∈ source.list, ∀ text, source.read id = .ok text → mayHoldFormulas text = true →
      ∀ r ∈ textReferences text, ∀ id' ∈ source.list, ∀ text', source.read id' = .ok text' →
        mayHoldFormulas text' = true → id'.name = r.1 → textReferences text' = []) :
    Index.RefersOneStep (source.indexedTexts queue) := by
  constructor
  · intro d hm
    obtain ⟨id, hid, hr, -⟩ := (mem_indexedTexts_of_perm hq).1 hm
    exact hnamed id hid d.2 hr
  · intro d hm r hmr e he hname
    obtain ⟨id, hid, hr, hf, -⟩ := (mem_indexedTexts_of_perm hq).1 hm
    obtain ⟨id', hid', hr', hf', hn'⟩ := (mem_indexedTexts_of_perm hq).1 he
    exact hplain id hid d.2 hr hf r hmr id' hid' e.2 hr' hf' (hn'.trans hname)

/-- No document of a name is indexed. -/
def Unindexed (source : Source) (name : String) : Prop :=
  ∀ id ∈ source.list, ∀ text, source.read id = .ok text → mayHoldFormulas text = true →
    id.name ≠ name

theorem run_unindexed (hnames : (source.list.map Document.name).Nodup)
    (hpolicy : engine.policy = .clear)
    (hforgotten : ∀ document, (engine.memoryOf document).text = none ∧
      (engine.memoryOf document).tables = ∅)
    (hq : queue.Perm source.list) (batch : Nat) {name : String} (h : Unindexed source name) :
    ((create queue batch).run source engine).2.index[name]? = engine.index[name]? := by
  rw [run_index hpolicy hforgotten ((hq.map Document.name).nodup_iff.2 hnames) batch]
  refine Index.twoRounds_other engine.index fun hm => ?_
  obtain ⟨d, hd, rfl⟩ := List.mem_map.1 hm
  obtain ⟨id, hid, hr, hf, hn⟩ := (mem_indexedTexts_of_perm hq).1 hd
  exact h id hid d.2 hr hf hn

/-- A document of which no text is indexed shares its name with none of which one is. -/
theorem unindexed_of_not_exists (hnames : (source.list.map Document.name).Nodup) {id : Document}
    (hid : id ∈ source.list)
    (h : ¬ ∃ text, source.read id = .ok text ∧ mayHoldFormulas text = true) :
    Unindexed source id.name := by
  intro id' hid' text hr hf hn
  refine h ⟨text, ?_, hf⟩
  rw [← List.inj_on_of_nodup_map hnames hid' hid hn]
  exact hr

end

/-- A bulk pass ends with an index that is consistent with itself, and no other entry is touched;
if it starts without entries of the documents, its order and its batches do not matter. -/
theorem run_consistent {source : Source} (hnames : (source.list.map Document.name).Nodup)
    {engine : Engine} (hpolicy : engine.policy = .clear)
    (hforgotten : ∀ document, (engine.memoryOf document).text = none ∧
      (engine.memoryOf document).tables = ∅)
    (hnamed : ∀ id ∈ source.list, ∀ text, source.read id = .ok text →
      textReferences text ≠ [] → hasReferences text = true)
    (hplain : ∀ id ∈ source.list, ∀ text, source.read id = .ok text → mayHoldFormulas text = true →
      ∀ r ∈ textReferences text, ∀ id' ∈ source.list, ∀ text', source.read id' = .ok text' →
        mayHoldFormulas text' = true → id'.name = r.1 → textReferences text' = [])
    {queue : List Document} (hqueue : queue.Perm source.list) (batch : Nat) :
    let final := ((create queue batch).run source engine).2.index
    (∀ id ∈ source.list, ∀ text, source.read id = .ok text → mayHoldFormulas text = true →
      entriesAgree final[id.name]?
        (publishedVariables final.lookup engine.formatter text).entry = true) ∧
    (∀ name, (∀ id ∈ source.list, ∀ text, source.read id = .ok text →
        mayHoldFormulas text = true → id.name ≠ name) → final[name]? = engine.index[name]?) ∧
    ((∀ id ∈ source.list, engine.index[id.name]? = none) →
      ∀ (queue' : List Document) (batch' : Nat), queue'.Perm source.list →
        let final' := ((create queue' batch').run source engine).2.index
        (∀ id ∈ source.list, entriesAgree final[id.name]? final'[id.name]? = true) ∧
        ∀ name, (∀ id ∈ source.list, id.name ≠ name) → final[name]? = final'[name]?) := by
  intro final
  have hrun : ∀ {queue : List Document}, queue.Perm source.list → ∀ batch,
      ((create queue batch).run source engine).2.index
        = Index.twoRounds engine.formatter (source.indexedTexts queue) engine.index :=
    fun hq batch => run_index hpolicy hforgotten ((hq.map Document.name).nodup_iff.2 hnames) batch
  have hd : ((source.indexedTexts queue).map Prod.fst).Nodup := indexedTexts_nodup hnames hqueue
  have hrefers : Index.RefersOneStep (source.indexedTexts queue) :=
    refersOneStep_of_perm hqueue hnamed hplain
  have hmem : ∀ {id : Document} {text : String}, id ∈ source.list → source.read id = .ok text →
      mayHoldFormulas text = true → (id.name, text) ∈ source.indexedTexts queue :=
    fun hid hr hf => (mem_indexedTexts_of_perm hqueue).2 ⟨_, hid, hr, hf, rfl⟩
  have hunindexed : ∀ {name}, Unindexed source name → final[name]? = engine.index[name]? :=
    fun h => run_unindexed hnames hpolicy hforgotten hqueue batch h
  refine ⟨fun id hid text hr hf => ?_, fun name hno => hunindexed hno, ?_⟩
  · have hfinal : final = _ := hrun hqueue batch
    rw [hfinal]
    exact Index.twoRounds_agrees hd hrefers engine.index (hmem hid hr hf)
  · intro hnone queue' batch' hqueue' final'
    have hunindexed' : ∀ {name}, Unindexed source name → final'[name]? = engine.index[name]? :=
      fun h => run_unindexed hnames hpolicy hforgotten hqueue' batch' h
    refine ⟨fun id hid => ?_, fun name hno => ?_⟩
    · by_cases hindexed : ∃ text, source.read id = .ok text ∧ mayHoldFormulas text = true
      · obtain ⟨text, hr, hf⟩ := hindexed
        have hfinal : final = _ := hrun hqueue batch
        have hfinal' : final' = _ := hrun hqueue' batch'
        rw [hfinal, hfinal']
        refine Index.twoRounds_perm hd hrefers ((hqueue'.trans hqueue.symm).filterMap _)
          (fun d hm => ?_) (hmem hid hr hf)
        obtain ⟨id', hid', -, -, hn⟩ := (mem_indexedTexts_of_perm hqueue).1 hm
        exact hn ▸ hnone id' hid'
      · have hno : Unindexed source id.name := unindexed_of_not_exists hnames hid hindexed
        rw [hunindexed hno, hunindexed' hno, hnone id hid]
        rfl
    · have hno' : Unindexed source name := fun id hid _ _ _ => hno id hid
      exact (hunindexed hno').trans (hunindexed' hno').symm

theorem run_consistent_forward_reference :
    let plan : Document := ⟨"a_plan.md"⟩
    let budget : Document := ⟨"z_budget.md"⟩
    let planText := "| Monthly | =NOTE(\"z_budget\").total / 12 |\n| x | 1 |"
    let budgetText := "| Rent | 1200 |\n| Total | =SUM(col) |"
    let source : Source :=
      { list := [plan, budget], read := fun id => .ok (if id = plan then planText else budgetText) }
    let final := ((create [plan, budget] 1).run source {}).2.index
    textReferences planText = [("z_budget", "total")] ∧
      entriesAgree final[plan.name]?
        (publishedVariables final.lookup ({} : Engine).formatter planText).entry = true := by
  intro plan budget planText budgetText source final
  have hread : ∀ id ∈ source.list, ∀ text, source.read id = .ok text →
      (id, text) = (plan, planText) ∨ (id, text) = (budget, budgetText) := by
    intro id hid text hr
    simp only [source, List.mem_cons, List.not_mem_nil, or_false] at hid
    rcases hid with rfl | rfl
    · cases hr
      exact .inl rfl
    · cases hr
      exact .inr rfl
  have hplanReferences : textReferences planText = [("z_budget", "total")] := by decide +kernel
  have hbudgetReferences : textReferences budgetText = [] := by decide +kernel
  have hnames : (source.list.map Document.name).Nodup := by decide +kernel
  have hforgotten := Engine.forgotten_of_memory_empty (rfl : ({} : Engine).memory = ∅)
  refine ⟨hplanReferences, (run_consistent hnames rfl hforgotten ?_ ?_ (List.Perm.refl _) 1).1 plan
    List.mem_cons_self planText rfl (by decide +kernel)⟩
  · intro id hid text hr hne
    rcases hread id hid text hr with h | h <;> cases h
    · decide +kernel
    · exact absurd hbudgetReferences hne
  · intro id hid text hr _ r hm id' hid' text' hr' _ hname
    rcases hread id hid text hr with h | h <;> cases h
    · rw [hplanReferences, List.mem_singleton] at hm
      subst hm
      rcases hread id' hid' text' hr' with h | h <;> cases h
      · revert hname
        decide +kernel
      · exact hbudgetReferences
    · rw [hbudgetReferences] at hm
      cases hm

end Bulk

end ComputedTables
