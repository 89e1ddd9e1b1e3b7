import ComputedTables.Proofs.Agreement

/-!
# Changes that show

An update of the index gives a new index only if the entry it is about does not agree with the old
one (`replace?_disagrees`, `merge?_disagrees`, `remove?_disagrees`).  A finite set that has replaced
an entry, under either policy, replaces nothing when it is published again (`replace?_again`).  A
merge keeps every name of the entry and the value of every name that it does not bring
(`merge?_keeps`).
-/

namespace ComputedTables.Index

open Std (ExtTreeMap)

variable {index changed : Index} {policy : WhenEmpty} {document : String} {set : VariableSet}

theorem agrees_getElem? {a b : VariableSet} (h : a.agrees b = true) (name : String) :
    a[name]? = none ∧ b[name]? = none ∨
      ∃ v w : Variable, a[name]? = some v ∧ b[name]? = some w ∧ v.agrees w = true := by
  obtain ⟨hkeys, hvalues⟩ := (VariableSet.agrees_iff a b).1 h
  by_cases hn : name ∈ a.keys
  · exact .inr (hvalues name hn)
  · have hb : name ∉ b.keys := hkeys ▸ hn
    rw [ExtTreeMap.mem_keys] at hn hb
    exact .inl ⟨ExtTreeMap.getElem?_eq_none hn, ExtTreeMap.getElem?_eq_none hb⟩

theorem lookup_eq_getD (index : Index) (document name : String) :
    index.lookup document name = (index.getD document ∅)[name]? := by
  unfold lookup
  rw [ExtTreeMap.getD_eq_getD_getElem?]
  rcases index[document]? with _ | entry
  · simp
  · rfl

/-! ### Removing and replacing -/

theorem remove?_disagrees (h : index.remove? document = some changed) :
    entriesAgree index[document]? changed[document]? = false := by
  unfold remove? at h
  split at h
  · rename_i hc
    cases h
    rw [ExtTreeMap.contains_eq_isSome_getElem?] at hc
    obtain ⟨entry, he⟩ := Option.isSome_iff_exists.1 hc
    rw [he, ExtTreeMap.getElem?_erase_self]
    rfl
  · cases h

theorem replace?_disagrees (h : index.replace? policy document set = some changed) :
    entriesAgree index[document]? changed[document]? = false := by
  unfold replace? at h
  split at h
  · cases policy with
    | clear => exact remove?_disagrees h
    | keep => cases h
  · split at h
    · cases h
    · rename_i hne
      cases h
      rw [ExtTreeMap.getElem?_insert_self]
      rcases ho : index[document]? with _ | old
      · rfl
      · rw [ho, Option.any_some] at hne
        exact Bool.eq_false_iff.2 fun ha => hne (VariableSet.agrees_symm ha)

/-- What has replaced an entry does not replace it again. -/
theorem replace?_again (h : set.Finite) (policy : WhenEmpty) (index : Index) (document : String) :
    ((index.replace? policy document set).getD index).replace? policy document set = none := by
  by_cases he : set.isEmpty = true
  · cases policy with
    | clear =>
      unfold replace? remove?
      by_cases hc : index.contains document = true
      · simp [he, hc]
      · simp [he, hc]
    | keep =>
      unfold replace?
      simp [he]
  · by_cases ha : index[document]?.any set.agrees = true
    · unfold replace?
      simp [he, ha]
    · unfold replace?
      simp [he, ha, VariableSet.agrees_self h]

/-! ### Merging -/

theorem merge?_eq_some (h : index.merge? document set = some changed) :
    let old := index.getD document ∅
    let fresh := set.filter fun name v => !old[name]?.any v.agrees
    fresh.isEmpty = false ∧ changed = index.insert document (old ∪ fresh) := by
  unfold merge? at h
  dsimp only at h
  split at h
  · cases h
  · rename_i hf
    cases h
    exact ⟨Bool.eq_false_iff.2 hf, rfl⟩

theorem merge?_disagrees (h : index.merge? document set = some changed) :
    entriesAgree index[document]? changed[document]? = false := by
  obtain ⟨hfresh, rfl⟩ := merge?_eq_some h
  rw [ExtTreeMap.getElem?_insert_self]
  rcases ho : index[document]? with _ | old
  · rfl
  · have hold : index.getD document ∅ = old := by
      rw [ExtTreeMap.getD_eq_getD_getElem?, ho]
      rfl
    rw [hold] at hfresh ⊢
    -- a name that the merge has brought stands for different variables before and after
    obtain ⟨name, hn⟩ : ∃ name,
        name ∈ set.filter fun name v => !old[name]?.any v.agrees := by
      by_contra hnone
      refine ExtTreeMap.isEmpty_eq_false_iff.1 hfresh ?_
      exact ExtTreeMap.eq_empty_iff_forall_not_mem.2 fun name hn => hnone ⟨name, hn⟩
    obtain ⟨v, hv⟩ := Option.isSome_iff_exists.1 (ExtTreeMap.mem_iff_isSome_getElem?.1 hn)
    have hnew : (old ∪ set.filter fun name v => !old[name]?.any v.agrees)[name]? = some v := by
      rw [ExtTreeMap.getElem?_union, hv]
      rfl
    rw [ExtTreeMap.getElem?_filter', Option.filter_eq_some_iff] at hv
    refine Bool.eq_false_iff.2 fun hagree => ?_
    rcases agrees_getElem? hagree name with ⟨-, hnone⟩ | ⟨w, v', hw, hv', hwv⟩
    · rw [hnew] at hnone
      cases hnone
    · rw [hnew, Option.some.injEq] at hv'
      subst hv'
      have hdiffers := hv.2
      rw [hw, Option.any_some, Variable.agrees_symm hwv] at hdiffers
      cases hdiffers

/-- A merge loses no name, and changes no variable but those it brings. -/
theorem merge?_keeps (index : Index) (document : String) (set : VariableSet) (name : String) :
    let merged := (index.merge? document set).getD index
    ((index.lookup document name).isSome = true → (merged.lookup document name).isSome = true) ∧
      (set[name]? = none → merged.lookup document name = index.lookup document name) := by
  intro merged
  rcases h : index.merge? document set with _ | changed
  · have hmerged : merged = index := by
      show (index.merge? document set).getD index = index
      rw [h, Option.getD_none]
    rw [hmerged]
    exact ⟨id, fun _ => rfl⟩
  · obtain ⟨-, hchanged⟩ := merge?_eq_some h
    have hlookup : merged.lookup document name
        = ((set.filter fun name v => !(index.getD document ∅)[name]?.any v.agrees)[name]?).or
          (index.lookup document name) := by
      show ((index.merge? document set).getD index).lookup document name = _
      rw [h, Option.getD_some, lookup_eq_getD, hchanged, ExtTreeMap.getD_insert_self,
        ExtTreeMap.getElem?_union, lookup_eq_getD]
    rw [hlookup]
    constructor
    · intro hsome
      rw [Option.isSome_or, hsome, Bool.or_true]
    · intro hnone
      rw [ExtTreeMap.getElem?_filter', hnone]
      rfl

end ComputedTables.Index
