import Mathlib
import ComputedTables.Folder.Scan

/-!
# What a scan reports

Each document is compared with what is known of it and with nothing else, so what is known after a
scan is told document by document (`Folder.scan_known`).  The documents that have gone and the new
ones are then matched until no two of equal digest are left (`matchRenamed_spec`); taking one out
of a list moves the last one, which loses none (`takeOut_perm`).  So the changes are those of a
`ScanReport` that names each place once, and a second scan has nothing to report
(`Folder.scan_reports`).
-/

namespace ComputedTables

open Std (ExtTreeMap)

/-! ### Comparing -/

/-- What is known of a document after it has been compared. -/
def Snapshots.next? (known : Snapshots) (digest : Text.Digest) (names : List String)
    (file : StoredFile) : Option Snapshot :=
  if known[names]?.any (·.modified == file.modified) then known[names]?
  else (file.text.map fun text => ⟨file.modified, digest text⟩).or known[names]?

def Snapshots.isEdited (known : Snapshots) (document : List String × StoredFile) : Bool :=
  document.2.text.isSome && known[document.1]?.any (·.modified != document.2.modified)

/-- A document that is not known, with its digest. -/
def Snapshots.newcomer? (known : Snapshots) (digest : Text.Digest)
    (document : List String × StoredFile) : Option (List String × UInt64) :=
  if known[document.1]?.isSome then none
  else document.2.text.map fun text => (document.1, digest text)

/-- What is known of documents and not any more, with the digests. -/
def Snapshots.without (known after : Snapshots) : List (List String × UInt64) :=
  (known.toList.filter fun (names, _) => !after.contains names).map
    fun (names, snapshot) => (names, snapshot.digest)

variable {known : Snapshots} {c : Comparison} {names : List String} {file : StoredFile}
  {digest : Text.Digest}

theorem Snapshots.mem_of_getElem? {snapshot : Snapshot} (h : known[names]? = some snapshot) :
    names ∈ known := by
  rw [ExtTreeMap.mem_iff_isSome_getElem?, h, Option.isSome_some]

theorem compare_spec (digest : Text.Digest) (known : Snapshots) (c : Comparison)
    (names : List String) (file : StoredFile) :
    (c.compare digest known (names, file)).modified
        = c.modified ++ (if known.isEdited (names, file) then [names] else []) ∧
      (c.compare digest known (names, file)).created
        = c.created ++ (known.newcomer? digest (names, file)).toList ∧
      (c.compare digest known (names, file)).current[names]?
        = (known.next? digest names file).or c.current[names]? := by
  obtain ⟨modified, text⟩ := file
  unfold Comparison.compare Snapshots.isEdited Snapshots.newcomer? Snapshots.next?
  dsimp only
  rcases known[names]? with _ | old
  · rcases text with _ | text <;> simp
  · by_cases hm : old.modified = modified <;> rcases text with _ | text <;> simp [hm]

theorem compare_other {other : List String} (h : other ≠ names) :
    (c.compare digest known (names, file)).current[other]? = c.current[other]? := by
  have hinsert : ∀ snapshot, (c.current.insert names snapshot)[other]? = c.current[other]? :=
    fun snapshot => by simp [ExtTreeMap.getElem?_insert, h.symm]
  obtain ⟨modified, text⟩ := file
  unfold Comparison.compare
  dsimp only
  rcases known[names]? with _ | old
  · rcases text with _ | text
    · rfl
    · exact hinsert _
  · by_cases hm : old.modified = modified <;> rcases text with _ | text <;> simp [hm, hinsert]

theorem foldl_compare (digest : Text.Digest) (known : Snapshots) :
    ∀ (documents : List (List String × StoredFile)) (c : Comparison),
      let last := documents.foldl (Comparison.compare digest known) c
      last.modified = c.modified ++ (documents.filter known.isEdited).map Prod.fst ∧
        last.created = c.created ++ documents.filterMap (known.newcomer? digest)
  | [], c => by simp
  | (names, file) :: documents, c => by
    obtain ⟨hm, hc, -⟩ := compare_spec digest known c names file
    obtain ⟨ihm, ihc⟩ := foldl_compare digest known documents (c.compare digest known (names, file))
    simp only [List.foldl_cons, ihm, ihc, hm, hc]
    constructor
    · by_cases h : known.isEdited (names, file) <;> simp [h]
    · rcases h : known.newcomer? digest (names, file) with _ | new <;> simp [h]

theorem foldl_compare_other : ∀ {documents : List (List String × StoredFile)} {c : Comparison},
    names ∉ documents.map Prod.fst →
      (documents.foldl (Comparison.compare digest known) c).current[names]? = c.current[names]?
  | [], _, _ => rfl
  | (first, file) :: documents, c, h => by
    simp only [List.map_cons, List.mem_cons, not_or] at h
    rw [List.foldl_cons, foldl_compare_other h.2, compare_other h.1]

theorem foldl_compare_self : ∀ {documents : List (List String × StoredFile)} {c : Comparison},
    (documents.map Prod.fst).Nodup → (names, file) ∈ documents →
      (documents.foldl (Comparison.compare digest known) c).current[names]?
        = (known.next? digest names file).or c.current[names]?
  | (first, file') :: documents, c, hnodup, hmem => by
    obtain ⟨hfirst, hnodup⟩ := List.nodup_cons.1 hnodup
    rw [List.foldl_cons]
    rcases List.mem_cons.1 hmem with heq | htail
    · cases heq
      rw [foldl_compare_other hfirst, (compare_spec digest known c names file).2.2]
    · have hne : names ≠ first := by
        rintro rfl
        exact hfirst (List.mem_map.2 ⟨_, htail, rfl⟩)
      rw [foldl_compare_self hnodup htail, compare_other hne]

/-! ### Matching -/

theorem takeOut_perm {α : Type} {items : List α} {position : Nat} {item : α}
    (h : items[position]? = some item) : items.Perm (item :: takeOut items position) := by
  obtain ⟨hlt, rfl⟩ := List.getElem?_eq_some_iff.1 h
  obtain ⟨last, hlast⟩ := Option.isSome_iff_exists.1 (show items.getLast?.isSome by
    simpa using List.ne_nil_of_length_pos (Nat.zero_lt_of_lt hlt))
  obtain ⟨before, after, hitems, -, hset⟩ : ∃ before after,
      items = before ++ items[position] :: after ∧ before.length = position ∧
        items.set position last = before ++ last :: after := List.exists_of_set hlt
  have htake : takeOut items position = (before ++ last :: after).dropLast := by
    simp [takeOut, hlast, hset]
  generalize items[position] = item at hitems
  rw [htake, hitems]
  rw [hitems] at hlast
  rcases List.eq_nil_or_concat' after with rfl | ⟨middle, final, rfl⟩
  · rw [List.dropLast_concat]
    exact List.perm_append_singleton item before
  · obtain rfl : final = last := by
      rw [← List.cons_append, ← List.append_assoc, List.getLast?_concat] at hlast
      exact Option.some.inj hlast
    have hlast : (before ++ final :: (middle ++ [final])).dropLast = before ++ final :: middle := by
      rw [← List.cons_append, ← List.append_assoc, List.dropLast_concat]
    rw [hlast]
    refine List.perm_middle.trans (.cons item ?_)
    rw [← List.append_assoc]
    exact (List.perm_append_singleton final _).trans List.perm_middle.symm

/-- A new document is matched with one of its digest that is gone, or there is none. -/
theorem matchRenamed_cons (gone created : List (List String × UInt64)) (new : List String)
    (d : UInt64) :
    (∃ position old, gone[position]? = some (old, d) ∧
      matchRenamed gone ((new, d) :: created) =
        let matched := matchRenamed (takeOut gone position) created
        (.renamed (Folder.documentAt old) (Folder.documentAt new) :: matched.1, matched.2)) ∨
    (∀ old ∈ gone, old.2 ≠ d) ∧ matchRenamed gone ((new, d) :: created) =
      let matched := matchRenamed gone created
      (.created (Folder.documentAt new) :: matched.1, matched.2) := by
  rw [matchRenamed]
  rcases hat : gone[gone.findIdx fun entry => entry.2 == d]? with _ | ⟨old, d'⟩
  · refine .inr ⟨fun old hold heq => ?_, ?_⟩
    · have hlength := List.getElem?_eq_none_iff.1 hat
      have := List.findIdx_lt_length (p := fun entry : List String × UInt64 => entry.2 == d)
        |>.2 ⟨old, hold, beq_iff_eq.2 heq⟩
      omega
    · dsimp only
      split
      · rename_i h
        cases hat.symm.trans h
      · rfl
  · obtain ⟨hlt, hold⟩ := List.getElem?_eq_some_iff.1 hat
    obtain rfl : d' = d := by
      have := List.findIdx_getElem (w := hlt)
      rw [hold] at this
      exact beq_iff_eq.1 this
    refine .inl ⟨_, old, hat, ?_⟩
    dsimp only
    split
    · rename_i h
      cases hat.symm.trans h
      rfl
    · rename_i h
      cases hat.symm.trans h

/-- Matching pairs documents of equal digest until no two are left: each new document is created or
the target of a pair, and each that was gone stays gone or is the source of one. -/
theorem matchRenamed_spec : ∀ (created gone : List (List String × UInt64)),
    ∃ (fresh : List (List String × UInt64))
      (pairs : List ((List String × UInt64) × (List String × UInt64))),
      let matched := matchRenamed gone created
      created.Perm (fresh ++ pairs.map Prod.snd) ∧
        gone.Perm (matched.2 ++ pairs.map Prod.fst) ∧ (∀ pair ∈ pairs, pair.1.2 = pair.2.2) ∧
        (∀ new ∈ fresh, ∀ old ∈ matched.2, old.2 ≠ new.2) ∧
        matched.1.Perm (fresh.map (fun new => .created (Folder.documentAt new.1)) ++
          pairs.map fun pair => .renamed (Folder.documentAt pair.1.1) (Folder.documentAt pair.2.1))
  | [], gone => ⟨[], [], by simp [matchRenamed]⟩
  | (new, d) :: created, gone => by
    rcases matchRenamed_cons gone created new d with ⟨position, old, hat, he⟩ | ⟨hnone, he⟩
    · obtain ⟨fresh, pairs, hcreated, hgone, hpairs, hleft, hchanges⟩ :=
        matchRenamed_spec created (takeOut gone position)
      refine ⟨fresh, ((old, d), (new, d)) :: pairs, ?_⟩
      rw [he]
      exact ⟨(hcreated.cons _).trans List.perm_middle.symm,
        (takeOut_perm hat).trans ((hgone.cons _).trans List.perm_middle.symm),
        List.forall_mem_cons.2 ⟨rfl, hpairs⟩, hleft, (hchanges.cons _).trans List.perm_middle.symm⟩
    · obtain ⟨fresh, pairs, hcreated, hgone, hpairs, hleft, hchanges⟩ :=
        matchRenamed_spec created gone
      refine ⟨(new, d) :: fresh, pairs, ?_⟩
      rw [he]
      refine ⟨hcreated.cons _, hgone, hpairs, List.forall_mem_cons.2 ⟨fun old hold => ?_, hleft⟩,
        hchanges.cons _⟩
      exact hnone old (hgone.mem_iff.2 (List.mem_append_left _ hold))

/-! ### What is there -/

namespace Folder

variable {f : Folder}

/-- The file that names lead to, if it is a document. -/
def document? (f : Folder) (names : List String) : Option StoredFile :=
  match f.entries[names]? with
  | some (.file file) => if isDocument names then some file else none
  | _ => none

/-- The text of a document that can be read. -/
def text? (f : Folder) (names : List String) : Option String :=
  (f.document? names).bind (·.text)

theorem mem_documentsBelow :
    (names, file) ∈ f.documentsBelow [] ↔ f.document? names = some file := by
  unfold documentsBelow document?
  simp only [List.mem_filterMap, Prod.exists, ExtTreeMap.mem_toList_iff_getElem?_eq_some]
  constructor
  · rintro ⟨key, entry, hentry, h⟩
    rcases entry with _ | file'
    · cases h
    · simp at h
      obtain ⟨hd, rfl, rfl⟩ := h
      simp [hentry, hd]
  · intro h
    split at h
    · rename_i file' hentry
      split at h
      · rename_i hd
        cases h
        exact ⟨names, .file file, hentry, by simp [hd]⟩
      · cases h
    · cases h

theorem documentsBelow_nodup (f : Folder) : ((f.documentsBelow []).map Prod.fst).Nodup := by
  unfold documentsBelow
  rw [List.Nodup, List.pairwise_map, List.pairwise_filterMap]
  refine ExtTreeMap.distinct_keys_toList.imp ?_
  rintro ⟨names, _ | file⟩ ⟨names', _ | file'⟩ hne document hdocument document' hdocument' heq
  · cases hdocument
  · cases hdocument
  · cases hdocument'
  · simp at hdocument hdocument'
    obtain ⟨-, rfl⟩ := hdocument
    obtain ⟨-, rfl⟩ := hdocument'
    exact hne (Std.compare_eq_iff_eq.2 heq)

/-- What is known of a document after a scan depends on that document alone. -/
theorem scan_known (f : Folder) (known : Snapshots) (digest : Text.Digest) (names : List String) :
    (f.scan known digest).2[names]? = (f.document? names).bind (known.next? digest names) := by
  show ((f.documentsBelow []).foldl (Comparison.compare digest known) {}).current[names]? = _
  rcases hd : f.document? names with _ | file
  · rw [foldl_compare_other]
    · simp
    · simp only [List.mem_map, Prod.exists, not_exists, not_and]
      rintro other file hmem rfl
      rw [mem_documentsBelow.1 hmem] at hd
      cases hd
  · rw [foldl_compare_self f.documentsBelow_nodup (mem_documentsBelow.2 hd)]
    simp

/-- The documents that were known and have changed. -/
def edited (f : Folder) (known : Snapshots) : List (List String) :=
  ((f.documentsBelow []).filter known.isEdited).map Prod.fst

/-- The documents that are there and were not known. -/
def newcomers (f : Folder) (known : Snapshots) (digest : Text.Digest) :
    List (List String × UInt64) :=
  (f.documentsBelow []).filterMap (known.newcomer? digest)

/-- The documents that were known and have gone. -/
def gone (f : Folder) (known : Snapshots) (digest : Text.Digest) : List (List String × UInt64) :=
  known.without (f.scan known digest).2

theorem scan_changes (f : Folder) (known : Snapshots) (digest : Text.Digest) :
    let matched := matchRenamed (f.gone known digest) (f.newcomers known digest)
    (f.scan known digest).1
      = (f.edited known).map (fun names => .modified (documentAt names)) ++ matched.1
        ++ matched.2.map fun old => .removed (documentAt old.1) := by
  obtain ⟨hmodified, hcreated⟩ := foldl_compare digest known (f.documentsBelow []) {}
  unfold edited newcomers gone scan Snapshots.without
  dsimp only at hmodified hcreated ⊢
  rw [hmodified, hcreated]
  simp [Function.comp_def]

variable {d : UInt64}

theorem mem_scan_known : names ∈ (f.scan known digest).2 ↔
    names ∈ known ∧ f.document? names ≠ none ∨ (f.text? names).isSome = true := by
  rw [ExtTreeMap.mem_iff_isSome_getElem?, scan_known, text?, ExtTreeMap.mem_iff_isSome_getElem?]
  rcases f.document? names with _ | file
  · simp
  · rcases hk : known[names]? with _ | old <;> rcases ht : file.text with _ | text
    · simp [Snapshots.next?, hk, ht]
    · simp [Snapshots.next?, hk, ht]
    · simp [Snapshots.next?, hk, ht]
    · by_cases hm : old.modified = file.modified <;> simp [Snapshots.next?, hk, ht, hm]

theorem mem_edited : names ∈ f.edited known ↔
    ∃ old file, known[names]? = some old ∧ f.document? names = some file ∧
      file.text.isSome = true ∧ old.modified ≠ file.modified := by
  simp only [edited, List.mem_map, List.mem_filter, Prod.exists, mem_documentsBelow,
    Snapshots.isEdited, Bool.and_eq_true, Option.any_eq_true, bne_iff_ne, exists_and_right,
    exists_eq_right]
  constructor
  · rintro ⟨file, hf, ht, old, hk, hm⟩
    exact ⟨old, file, hk, hf, ht, hm⟩
  · rintro ⟨old, file, hk, hf, ht, hm⟩
    exact ⟨file, hf, ht, old, hk, hm⟩

theorem mem_newcomers : (names, d) ∈ f.newcomers known digest ↔
    names ∉ known ∧ (f.text? names).map digest = some d := by
  simp only [newcomers, List.mem_filterMap, Prod.exists, mem_documentsBelow]
  constructor
  · rintro ⟨names', file, hf, h⟩
    unfold Snapshots.newcomer? at h
    split at h
    · cases h
    · rename_i hknown
      obtain ⟨text, htext, he⟩ := Option.map_eq_some_iff.1 h
      cases he
      have htext : file.text = some text := htext
      rw [text?, hf, Option.bind_some, htext]
      exact ⟨by simpa using hknown, rfl⟩
  · rintro ⟨hknown, h⟩
    obtain ⟨text, htext, rfl⟩ := Option.map_eq_some_iff.1 h
    obtain ⟨file, hf, htext⟩ := Option.bind_eq_some_iff.1 htext
    refine ⟨names, file, hf, ?_⟩
    simp [Snapshots.newcomer?, hknown, htext]

theorem mem_gone : (names, d) ∈ f.gone known digest ↔
    known[names]?.map (·.digest) = some d ∧ f.document? names = none := by
  have hafter : ∀ snapshot, known[names]? = some snapshot →
      ((f.scan known digest).2.contains names = false ↔ f.document? names = none) := by
    intro snapshot hs
    have hknown : names ∈ known := by
      rw [ExtTreeMap.mem_iff_isSome_getElem?, hs, Option.isSome_some]
    rw [Bool.eq_false_iff, Ne, ExtTreeMap.contains_iff_mem, mem_scan_known]
    rcases hd : f.document? names with _ | file <;> simp [hknown, text?, hd]
  simp only [gone, Snapshots.without, List.mem_map, List.mem_filter, Prod.exists, Prod.mk.injEq,
    ExtTreeMap.mem_toList_iff_getElem?_eq_some, Option.map_eq_some_iff, Bool.not_eq_true']
  constructor
  · rintro ⟨_, snapshot, ⟨hs, ha⟩, rfl, rfl⟩
    exact ⟨⟨snapshot, hs, rfl⟩, (hafter snapshot hs).1 ha⟩
  · rintro ⟨⟨snapshot, hs, rfl⟩, hd⟩
    exact ⟨names, snapshot, ⟨hs, (hafter snapshot hs).2 hd⟩, rfl, rfl⟩

theorem mem_map_newcomers :
    names ∈ (f.newcomers known digest).map Prod.fst ↔
      names ∉ known ∧ (f.text? names).isSome = true := by
  simp [mem_newcomers, Option.isSome_iff_exists]

theorem mem_map_gone :
    names ∈ (f.gone known digest).map Prod.fst ↔ names ∈ known ∧ f.document? names = none := by
  rw [ExtTreeMap.mem_iff_isSome_getElem?, Option.isSome_iff_exists]
  simp [mem_gone]

theorem newcomers_nodup (f : Folder) (known : Snapshots) (digest : Text.Digest) :
    ((f.newcomers known digest).map Prod.fst).Nodup := by
  have hfst : ∀ document new, known.newcomer? digest document = some new → new.1 = document.1 := by
    intro document new h
    unfold Snapshots.newcomer? at h
    split at h
    · cases h
    · obtain ⟨text, -, rfl⟩ := Option.map_eq_some_iff.1 h
      rfl
  have hdistinct := f.documentsBelow_nodup
  rw [List.Nodup, List.pairwise_map] at hdistinct ⊢
  rw [newcomers, List.pairwise_filterMap]
  refine hdistinct.imp fun hne new hnew new' hnew' => ?_
  rwa [hfst _ _ hnew, hfst _ _ hnew']

theorem gone_nodup (f : Folder) (known : Snapshots) (digest : Text.Digest) :
    ((f.gone known digest).map Prod.fst).Nodup := by
  rw [gone, Snapshots.without, List.map_map]
  have hkeys : (known.toList.map Prod.fst).Nodup := by
    rw [ExtTreeMap.map_fst_toList_eq_keys]
    exact ExtTreeMap.nodup_keys
  exact hkeys.sublist (List.filter_sublist.map Prod.fst)

theorem differences_nodup (f : Folder) (known : Snapshots) (digest : Text.Digest) :
    (f.edited known ++ (f.newcomers known digest).map Prod.fst
      ++ (f.gone known digest).map Prod.fst).Nodup := by
  have hedited : (f.edited known).Nodup :=
    f.documentsBelow_nodup.sublist (List.filter_sublist.map Prod.fst)
  refine (hedited.append (newcomers_nodup f known digest) ?_).append (gone_nodup f known digest) ?_
  · intro names hmem hmem'
    obtain ⟨old, -, hk, -⟩ := mem_edited.1 hmem
    exact (mem_map_newcomers.1 hmem').1 (Snapshots.mem_of_getElem? hk)
  · intro names hmem hmem'
    obtain ⟨hk, hd⟩ := mem_map_gone.1 hmem'
    rcases List.mem_append.1 hmem with hmem | hmem
    · obtain ⟨old, file, -, hf, -⟩ := mem_edited.1 hmem
      rw [hd] at hf
      cases hf
    · exact (mem_map_newcomers.1 hmem).1 hk

theorem scan_known_of_text {file : StoredFile} {text : String}
    (h : ∀ old, known[names]? = some old → old.modified ≠ file.modified)
    (hf : f.document? names = some file) (ht : file.text = some text) :
    (f.scan known digest).2[names]? = some ⟨file.modified, digest text⟩ := by
  rw [scan_known, hf, Option.bind_some, Snapshots.next?, if_neg, ht]
  · rfl
  · rcases hk : known[names]? with _ | old
    · simp
    · simpa using h old hk

theorem scan_known_of_kept (hd : f.document? names ≠ none)
    (hnew : ¬ (names ∉ known ∧ (f.text? names).isSome = true)) (hedited : names ∉ f.edited known) :
    (f.scan known digest).2[names]? = known[names]? := by
  obtain ⟨file, hf⟩ := Option.ne_none_iff_exists'.1 hd
  rw [mem_edited] at hedited
  rw [text?, hf, Option.bind_some] at hnew
  rw [scan_known, hf, Option.bind_some, Snapshots.next?]
  rcases ht : file.text with _ | text
  · simp
  rcases hk : known[names]? with _ | old
  · rw [ExtTreeMap.mem_iff_isSome_getElem?, hk, ht] at hnew
    simp at hnew
  · rw [if_pos]
    by_contra hm
    refine hedited ⟨old, file, hk, hf, by rw [ht]; rfl, fun heq => hm ?_⟩
    simp [heq]

/-- The digest that a new document is matched by is the one it is known by from then on. -/
theorem digest_of_mem_newcomers (h : (names, d) ∈ f.newcomers known digest) :
    (f.scan known digest).2[names]?.map (·.digest) = some d := by
  obtain ⟨hk, hd⟩ := mem_newcomers.1 h
  obtain ⟨text, htext, rfl⟩ := Option.map_eq_some_iff.1 hd
  obtain ⟨file, hf, htext⟩ := Option.bind_eq_some_iff.1 htext
  rw [scan_known_of_text (fun old hold => absurd (Snapshots.mem_of_getElem? hold) hk) hf htext]
  rfl

end Folder

/-! ### Reports -/

/-- Names that make a path: there is one, and none of them is cut where it is cut into names. -/
def Folder.IsPath (names : List String) : Prop :=
  names ≠ [] ∧ ∀ name ∈ names, '/' ∉ name.toList

instance (names : List String) : Decidable (Folder.IsPath names) :=
  inferInstanceAs (Decidable (_ ∧ _))

/-- What a scan has found, by the names that lead to the documents. -/
structure ScanReport where
  modified : List (List String)
  created : List (List String)
  removed : List (List String)
  renamed : List (List String × List String)

namespace ScanReport

open Folder (documentAt)

/-- Where documents have been found that were not known. -/
def arrived (r : ScanReport) : List (List String) :=
  r.created ++ r.renamed.map Prod.snd

/-- Where known documents are not found any more. -/
def departed (r : ScanReport) : List (List String) :=
  r.removed ++ r.renamed.map Prod.fst

/-- The changes that tell of all this. -/
def changes (r : ScanReport) : List Change :=
  r.modified.map (fun names => .modified (documentAt names))
    ++ r.created.map (fun names => .created (documentAt names))
    ++ r.renamed.map (fun pair => .renamed (documentAt pair.1) (documentAt pair.2))
    ++ r.removed.map fun names => .removed (documentAt names)

/-- The changes name the documents at all these places, each as often as there are places. -/
theorem documents_changes (r : ScanReport) : (r.changes.flatMap Change.documents).Perm
    ((r.modified ++ r.arrived ++ r.departed).map documentAt) := by
  have hrenamed : (r.renamed.flatMap fun pair => [documentAt pair.1, documentAt pair.2]).Perm
      (r.renamed.map (fun pair => documentAt pair.1)
        ++ r.renamed.map fun pair => documentAt pair.2) := by
    simpa [List.map_eq_flatMap] using (List.flatMap_append_perm r.renamed
      (fun pair => [documentAt pair.1]) fun pair => [documentAt pair.2]).symm
  simp only [changes, arrived, departed, List.flatMap_append, List.flatMap_map, Change.documents,
    List.map_append, List.map_map, Function.comp_def, List.append_assoc, ← List.map_eq_flatMap]
  -- among what has departed the sources of the pairs stand last
  have hlast : ∀ a b c : List Document, (a ++ b ++ c).Perm (b ++ (c ++ a)) := by
    intro a b c
    rw [List.append_assoc, ← List.append_assoc b]
    exact List.perm_append_comm
  exact .append_left _ (.append_left _ ((hrenamed.append_right _).trans (hlast _ _ _)))

/-- The report of a matching. -/
def ofMatching (edited : List (List String)) (fresh left : List (List String × UInt64))
    (pairs : List ((List String × UInt64) × (List String × UInt64))) : ScanReport where
  modified := edited
  created := fresh.map Prod.fst
  removed := left.map Prod.fst
  renamed := pairs.map fun pair => (pair.1.1, pair.2.1)

/-- The report tells the whole difference between what is known and what is there, each place once;
`after` is what is known then. -/
structure Accounts (r : ScanReport) (f : Folder) (digest : Text.Digest) (known after : Snapshots) :
    Prop where
  once : (r.modified ++ r.arrived ++ r.departed).Nodup
  arrived : ∀ names, names ∈ r.arrived ↔ names ∉ known ∧ (f.text? names).isSome = true
  departed : ∀ names, names ∈ r.departed ↔ names ∈ known ∧ f.document? names = none
  modified : ∀ names, names ∈ r.modified ↔ ∃ old file, known[names]? = some old ∧
    f.document? names = some file ∧ file.text.isSome = true ∧ old.modified ≠ file.modified
  paired : ∀ pair ∈ r.renamed, known[pair.1]?.map (·.digest) = after[pair.2]?.map (·.digest)
  unpaired : ∀ old ∈ r.removed, ∀ new ∈ r.created,
    known[old]?.map (·.digest) ≠ after[new]?.map (·.digest)
  mem_after : ∀ names, names ∈ after ↔ names ∈ known ∧ names ∉ r.departed ∨ names ∈ r.arrived
  read : ∀ names file text, names ∈ r.arrived ∨ names ∈ r.modified →
    f.document? names = some file → file.text = some text →
      after[names]? = some ⟨file.modified, digest text⟩
  -- so is a document that cannot be read: it has neither arrived nor been modified
  kept : ∀ names, f.document? names ≠ none → names ∉ r.arrived → names ∉ r.modified →
    after[names]? = known[names]?

end ScanReport

namespace Folder

theorem scan_report (f : Folder) (known : Snapshots) (digest : Text.Digest) : ∃ r : ScanReport,
    (f.scan known digest).1.Perm r.changes ∧ r.Accounts f digest known (f.scan known digest).2 := by
  have hmatched := matchRenamed_spec (f.newcomers known digest) (f.gone known digest)
  have hsaid := f.scan_changes known digest
  dsimp only at hmatched hsaid
  generalize matchRenamed (f.gone known digest) (f.newcomers known digest) = matched
    at hmatched hsaid
  obtain ⟨fresh, pairs, hcreated, hgone, hpairs, hleft, hchanges⟩ := hmatched
  obtain ⟨told, left⟩ := matched
  dsimp only at hsaid hgone hleft hchanges
  set r := ScanReport.ofMatching (f.edited known) fresh left pairs with hr
  have hcame : ((f.newcomers known digest).map Prod.fst).Perm r.arrived := by
    simpa [ScanReport.arrived, hr, ScanReport.ofMatching, Function.comp_def]
      using hcreated.map Prod.fst
  have hwent : ((f.gone known digest).map Prod.fst).Perm r.departed := by
    simpa [ScanReport.departed, hr, ScanReport.ofMatching, Function.comp_def]
      using hgone.map Prod.fst
  have hnew : ∀ new ∈ fresh ++ pairs.map Prod.snd,
      (f.scan known digest).2[new.1]?.map (·.digest) = some new.2 :=
    fun new hmem => digest_of_mem_newcomers (hcreated.mem_iff.2 hmem)
  have hold : ∀ old ∈ left ++ pairs.map Prod.fst, known[old.1]?.map (·.digest) = some old.2 :=
    fun old hmem => (mem_gone.1 (hgone.mem_iff.2 hmem)).1
  have harrived : ∀ names, names ∈ r.arrived ↔ names ∉ known ∧ (f.text? names).isSome = true :=
    fun names => hcame.mem_iff.symm.trans mem_map_newcomers
  have hdeparted : ∀ names, names ∈ r.departed ↔ names ∈ known ∧ f.document? names = none :=
    fun names => hwent.mem_iff.symm.trans mem_map_gone
  -- what is known after the scan is compared with the digests that were matched
  refine ⟨r, ?_, ?_, harrived, hdeparted, fun names => mem_edited, ?_, ?_, ?_, ?_, ?_⟩
  · rw [hsaid]
    simpa [ScanReport.changes, hr, ScanReport.ofMatching, Function.comp_def]
      using (hchanges.append_right _).append_left _
  · exact (((hcame.append_left _).append hwent).nodup_iff).1 (f.differences_nodup known digest)
  · rintro _ hpair
    obtain ⟨⟨old, new⟩, hmem, rfl⟩ := List.mem_map.1 hpair
    rw [hold old (List.mem_append_right _ (List.mem_map.2 ⟨_, hmem, rfl⟩)),
      hnew new (List.mem_append_right _ (List.mem_map.2 ⟨_, hmem, rfl⟩)), hpairs _ hmem]
  · intro _ hremoved _ hcreated
    obtain ⟨old, hmem, rfl⟩ := List.mem_map.1 hremoved
    obtain ⟨new, hmem', rfl⟩ := List.mem_map.1 hcreated
    rw [hold old (List.mem_append_left _ hmem), hnew new (List.mem_append_left _ hmem')]
    exact fun heq => hleft _ hmem' _ hmem (Option.some.inj heq)
  · intro names
    have hthere : (f.text? names).isSome = true → f.document? names ≠ none := by
      intro htext hd
      simp [text?, hd] at htext
    rw [mem_scan_known, hdeparted, harrived]
    tauto
  · rintro names file text hmem hf ht
    refine scan_known_of_text (fun old hk => ?_) hf ht
    rcases hmem with hmem | hmem
    · exact absurd (Snapshots.mem_of_getElem? hk) ((harrived names).1 hmem).1
    · obtain ⟨old', file', hk', hf', -, hne⟩ := mem_edited.1 hmem
      cases hk.symm.trans hk'
      cases hf.symm.trans hf'
      exact hne
  · exact fun names hd hnot => scan_known_of_kept hd (mt (harrived names).2 hnot)

/-- A document that has just been compared has nothing new to tell. -/
theorem settled {after : Snapshots} {file : StoredFile}
    (h : after[names]? = known.next? digest names file) :
    after.isEdited (names, file) = false ∧ after.newcomer? digest (names, file) = none ∧
      after.next? digest names file = after[names]? := by
  have hsame : after[names]?.any (·.modified == file.modified) = true ∨ file.text = none := by
    rw [h, Snapshots.next?]
    split
    · exact .inl ‹_›
    · rcases file.text with _ | text <;> simp
  rcases hsame with hsame | hunread
  · obtain ⟨snapshot, hs, hm⟩ := Option.any_eq_true _ _ |>.1 hsame
    refine ⟨?_, ?_, ?_⟩
    · simp [Snapshots.isEdited, hs, beq_iff_eq.1 hm]
    · simp [Snapshots.newcomer?, hs]
    · rw [Snapshots.next?, if_pos hsame]
  · refine ⟨?_, ?_, ?_⟩
    · simp [Snapshots.isEdited, hunread]
    · simp [Snapshots.newcomer?, hunread]
    · simp [Snapshots.next?, hunread]

theorem scan_again (f : Folder) (known : Snapshots) (digest : Text.Digest) :
    f.scan (f.scan known digest).2 digest = ([], (f.scan known digest).2) := by
  set after := (f.scan known digest).2 with hafter
  have hknown : ∀ names file, f.document? names = some file →
      after[names]? = known.next? digest names file := by
    intro names file hf
    rw [hafter, scan_known, hf, Option.bind_some]
  have hedited : f.edited after = [] := by
    refine List.map_eq_nil_iff.2 (List.filter_eq_nil_iff.2 fun (names, file) hmem => ?_)
    simp [(settled (hknown names file (mem_documentsBelow.1 hmem))).1]
  have hnew : f.newcomers after digest = [] :=
    List.filterMap_eq_nil_iff.2 fun (names, file) hmem =>
      (settled (hknown names file (mem_documentsBelow.1 hmem))).2.1
  have hgone : f.gone after digest = [] := by
    refine List.eq_nil_iff_forall_not_mem.2 fun (names, d) hmem => ?_
    obtain ⟨hs, hd⟩ := mem_gone.1 hmem
    rw [hafter, scan_known, hd] at hs
    cases hs
  have hchanges := f.scan_changes after digest
  simp only [hedited, hnew, hgone, matchRenamed, List.map_nil, List.append_nil] at hchanges
  refine Prod.ext hchanges (ExtTreeMap.ext_getElem? fun names => ?_)
  rw [scan_known]
  rcases hd : f.document? names with _ | file
  · rw [hafter, scan_known, hd]
    rfl
  · exact (settled (hknown names file hd)).2.2

/-- The names that lead to a document are told from its path. -/
theorem pieces_documentAt {names : List String} (h : IsPath names) :
    Text.pieces '/' (documentAt names).path = names := by
  obtain ⟨hne, hnames⟩ := h
  have hpath : (documentAt names).path = Text.joined "/" names := by simp [documentAt, pathBelow]
  have hsplit : (['/'].intercalate (names.map String.toList)).splitOn '/'
      = names.map String.toList :=
    List.splitOn_intercalate '/' (by simpa using hnames) (by simpa using hne)
  rw [hpath, Text.pieces, Text.joined, String.toList_ofList]
  simp [hsplit, Function.comp_def]

theorem scan_documents_nodup {r : ScanReport} {changes : List Change} {after : Snapshots}
    (h : r.Accounts f digest known after) (hchanges : changes.Perm r.changes)
    (hpath : ∀ names ∈ known.keys ++ (f.documentsBelow []).map Prod.fst, IsPath names) :
    (changes.flatMap Change.documents).Nodup := by
  have hthere : ∀ names, f.document? names ≠ none → IsPath names := by
    intro names hd
    obtain ⟨file, hf⟩ := Option.ne_none_iff_exists'.1 hd
    exact hpath names
      (List.mem_append_right _ (List.mem_map.2 ⟨_, mem_documentsBelow.2 hf, rfl⟩))
  have hknown : ∀ names ∈ known, IsPath names := fun names hk =>
    hpath names (List.mem_append_left _ (ExtTreeMap.mem_keys.2 hk))
  have htold : ∀ names ∈ r.modified ++ r.arrived ++ r.departed, IsPath names := by
    intro names hmem
    rcases List.mem_append.1 hmem with hmem | hmem
    · rcases List.mem_append.1 hmem with hmem | hmem
      · obtain ⟨old, file, hk, -⟩ := (h.modified names).1 hmem
        exact hknown names (Snapshots.mem_of_getElem? hk)
      · refine hthere names fun hd => ?_
        have htext := ((h.arrived names).1 hmem).2
        rw [text?, hd] at htext
        cases htext
    · exact hknown names ((h.departed names).1 hmem).1
  have hdocuments := (hchanges.flatMap_right Change.documents).trans r.documents_changes
  refine hdocuments.nodup_iff.2 (h.once.map_on fun names hmem names' hmem' heq => ?_)
  rw [← pieces_documentAt (htold names hmem), heq, pieces_documentAt (htold names' hmem')]

/-- A scan tells the whole difference, each place and each path once, and then there is none. -/
theorem scan_reports (f : Folder) (known : Snapshots) (digest : Text.Digest) :
    let (changes, after) := f.scan known digest
    (∃ r : ScanReport, changes.Perm r.changes ∧ r.Accounts f digest known after) ∧
      ((∀ names ∈ known.keys ++ (f.documentsBelow []).map Prod.fst, IsPath names) →
        (changes.flatMap Change.documents).Nodup) ∧
      f.scan after digest = ([], after) := by
  obtain ⟨r, hchanges, haccounts⟩ := f.scan_report known digest
  exact ⟨⟨r, hchanges, haccounts⟩, scan_documents_nodup haccounts hchanges,
    f.scan_again known digest⟩

theorem scan_reports_moved_document :
    let text := "| a | =1 |"
    let f : Folder := { entries := ((∅ : ExtTreeMap (List String) Entry).insert ["d", "b.md"]
      (.file ⟨2, some text⟩)).insert ["c.md"] (.file ⟨3, none⟩) }
    let digest : Text.Digest := fun text => text.utf8ByteSize.toUInt64
    let known : Snapshots := ((∅ : Snapshots).insert ["a.md"] ⟨1, digest text⟩).insert ["c.md"]
      ⟨1, digest ""⟩
    let changes := (f.scan known digest).1
    (∀ names ∈ known.keys ++ (f.documentsBelow []).map Prod.fst, IsPath names) ∧
      changes = [.renamed ⟨"a.md"⟩ ⟨"d/b.md"⟩] ∧ (changes.flatMap Change.documents).Nodup := by
  intro text f digest known changes
  have hpath : ∀ names ∈ known.keys ++ (f.documentsBelow []).map Prod.fst, IsPath names := by
    decide +kernel
  exact ⟨hpath, by decide +kernel, (scan_reports f known digest).2.1 hpath⟩

end Folder

end ComputedTables
