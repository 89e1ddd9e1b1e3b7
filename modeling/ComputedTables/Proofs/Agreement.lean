import Mathlib
import ComputedTables.Variable.Update

/-!
# When published values agree

Published values are compared as numbers, so that zeros of either sign agree.  As with numbers, this
is symmetric and transitive, and what is finite agrees with itself: variables, sets of them and the
entries of an index.

What a document has published replaces its entry only if the two do not agree, so afterwards the
entry agrees with it (`publish_self`), and no other entry has changed (`publish_other`).
-/

namespace ComputedTables

open Std (ExtTreeMap)

theorem beq_self_of_isFinite {x : Float} (h : x.isFinite = true) : (x == x) = true := by
  refine Float.beq_self_iff.2 ?_
  rintro rfl
  cases h

namespace Variable

theorem agrees_self {v : Variable} (h : v.value.isFinite = true) : v.agrees v = true := by
  simp only [agrees, beq_self_of_isFinite h, BEq.rfl, Bool.and_self]

theorem agrees_symm {v w : Variable} (h : v.agrees w = true) : w.agrees v = true := by
  simp only [agrees, Bool.and_eq_true, beq_iff_eq] at h ⊢
  exact ⟨BEq.symm h.1, h.2.symm⟩

theorem agrees_trans {u v w : Variable} (huv : u.agrees v = true) (hvw : v.agrees w = true) :
    u.agrees w = true := by
  simp only [agrees, Bool.and_eq_true, beq_iff_eq] at huv hvw ⊢
  exact ⟨BEq.trans huv.1 hvw.1, huv.2.trans hvw.2⟩

end Variable

namespace VariableSet

/-- Every variable has a finite value. -/
def Finite (set : VariableSet) : Prop :=
  ∀ (name : String) (v : Variable), set[name]? = some v → v.value.isFinite = true

theorem finite_empty : Finite ∅ := by
  intro name v h
  simp at h

theorem Finite.union {a b : VariableSet} (ha : Finite a) (hb : Finite b) : Finite (a ∪ b) := by
  intro name v h
  rw [ExtTreeMap.getElem?_union] at h
  rcases Option.or_eq_some_iff.1 h with hv | ⟨-, hv⟩
  · exact hb name v hv
  · exact ha name v hv

theorem Finite.insert {set : VariableSet} (hs : Finite set) {name : String} {v : Variable}
    (hv : v.value.isFinite = true) : Finite (set.insert name v) := by
  intro other w h
  rw [ExtTreeMap.getElem?_insert] at h
  split at h
  · cases h
    exact hv
  · exact hs other w h

theorem agrees_iff (a b : VariableSet) :
    a.agrees b = true ↔ a.keys = b.keys ∧ ∀ name ∈ a.keys, ∃ v w : Variable,
      a[name]? = some v ∧ b[name]? = some w ∧ v.agrees w = true := by
  simp only [agrees, Bool.and_eq_true, beq_iff_eq, List.all_eq_true]
  refine and_congr_right fun _ => forall_congr' fun name => imp_congr_right fun _ => ?_
  rcases a[name]? with _ | v <;> rcases b[name]? with _ | w <;> simp

theorem agrees_self {set : VariableSet} (h : set.Finite) : set.agrees set = true := by
  refine (agrees_iff set set).2 ⟨rfl, fun name hn => ?_⟩
  obtain ⟨v, hv⟩ := ExtTreeMap.mem_iff_isSome_getElem?.1 (ExtTreeMap.mem_keys.1 hn) |>
    Option.isSome_iff_exists.1
  exact ⟨v, v, hv, hv, Variable.agrees_self (h name v hv)⟩

theorem agrees_symm {a b : VariableSet} (h : a.agrees b = true) : b.agrees a = true := by
  obtain ⟨hk, hv⟩ := (agrees_iff a b).1 h
  refine (agrees_iff b a).2 ⟨hk.symm, fun name hn => ?_⟩
  obtain ⟨v, w, ha, hb, hvw⟩ := hv name (hk ▸ hn)
  exact ⟨w, v, hb, ha, Variable.agrees_symm hvw⟩

theorem agrees_trans {a b c : VariableSet} (hab : a.agrees b = true) (hbc : b.agrees c = true) :
    a.agrees c = true := by
  obtain ⟨hk, hv⟩ := (agrees_iff a b).1 hab
  obtain ⟨hk', hw⟩ := (agrees_iff b c).1 hbc
  refine (agrees_iff a c).2 ⟨hk.trans hk', fun name hn => ?_⟩
  obtain ⟨u, v, ha, hb, huv⟩ := hv name hn
  obtain ⟨v', w, hb', hc, hvw⟩ := hw name (hk ▸ hn)
  rw [hb, Option.some.injEq] at hb'
  subst hb'
  exact ⟨u, w, ha, hc, Variable.agrees_trans huv hvw⟩

/-- The entry of a document that publishes these variables: there is none without any. -/
def entry (set : VariableSet) : Option VariableSet :=
  if set.isEmpty then none else some set

end VariableSet

/-- Whether two entries agree: both are missing, or both are there and their variables agree. -/
def entriesAgree : Option VariableSet → Option VariableSet → Bool
  | none, none => true
  | some a, some b => a.agrees b
  | _, _ => false

theorem entriesAgree_self {set : VariableSet} (h : set.Finite) :
    entriesAgree set.entry set.entry = true := by
  unfold VariableSet.entry
  split
  · rfl
  · exact VariableSet.agrees_self h

theorem entriesAgree_symm {a b : Option VariableSet} (h : entriesAgree a b = true) :
    entriesAgree b a = true := by
  rcases a with _ | a <;> rcases b with _ | b <;> simp only [entriesAgree] at h ⊢
  · cases h
  · cases h
  · exact VariableSet.agrees_symm h

theorem entriesAgree_trans {a b c : Option VariableSet} (hab : entriesAgree a b = true)
    (hbc : entriesAgree b c = true) : entriesAgree a c = true := by
  rcases a with _ | a <;> rcases b with _ | b <;> rcases c with _ | c <;>
    simp only [entriesAgree] at hab hbc ⊢ <;> try contradiction
  exact VariableSet.agrees_trans hab hbc

namespace Index

/-- The index after a document has published, where an empty set removes the entry. -/
def publish (index : Index) (document : String) (set : VariableSet) : Index :=
  (index.replace? .clear document set).getD index

variable {index : Index} {document other : String} {set : VariableSet}

theorem replace?_other {policy : WhenEmpty} {changed : Index} (hne : other ≠ document)
    (h : index.replace? policy document set = some changed) : changed[other]? = index[other]? := by
  have hcmp : ¬ compare document other = .eq := by
    rw [Std.LawfulEqOrd.compare_eq_iff_eq]
    exact hne.symm
  unfold replace? at h
  split at h
  · cases policy with
    | clear =>
      simp only [remove?] at h
      split at h
      · cases h
        rw [ExtTreeMap.getElem?_erase, if_neg hcmp]
      · cases h
    | keep => cases h
  · split at h
    · cases h
    · cases h
      rw [ExtTreeMap.getElem?_insert, if_neg hcmp]

theorem publish_other (hne : other ≠ document) :
    (index.publish document set)[other]? = index[other]? := by
  unfold publish
  rcases h : index.replace? .clear document set with _ | changed
  · rfl
  · exact replace?_other hne h

/-- After a publication the entry is what was published, unless the old one agrees with it. -/
theorem publish_cases (index : Index) (document : String) (set : VariableSet) :
    (index.publish document set)[document]? = set.entry ∨
    ∃ old, index[document]? = some old ∧ set.isEmpty = false ∧ set.agrees old = true ∧
      index.publish document set = index := by
  unfold publish replace? VariableSet.entry
  by_cases he : set.isEmpty = true
  · left
    simp only [he, ↓reduceIte, remove?]
    by_cases hc : index.contains document = true
    · simp [hc]
    · simp only [hc, Bool.false_eq_true, ↓reduceIte, Option.getD_none]
      exact ExtTreeMap.getElem?_eq_none_of_contains_eq_false (Bool.eq_false_iff.2 hc)
  · simp only [he, Bool.false_eq_true, ↓reduceIte]
    rcases ho : index[document]? with _ | old
    · left
      simp
    · by_cases ha : set.agrees old = true
      · right
        exact ⟨old, rfl, trivial, ha, by simp [ha]⟩
      · left
        simp [ha]

theorem publish_self (h : set.Finite) :
    entriesAgree (index.publish document set)[document]? set.entry = true := by
  rcases publish_cases index document set with he | ⟨old, ho, hne, ha, hi⟩
  · rw [he]
    exact entriesAgree_self h
  · rw [hi, ho]
    simp only [VariableSet.entry, hne, Bool.false_eq_true, ↓reduceIte]
    exact VariableSet.agrees_symm ha

theorem publish_of_not_mem (h : index[document]? = none) :
    (index.publish document set)[document]? = set.entry := by
  rcases publish_cases index document set with he | ⟨old, ho, -⟩
  · exact he
  · rw [h] at ho
    cases ho

/-- What agrees with the entry changes nothing when it is published. -/
theorem publish_eq_self (h : entriesAgree index[document]? set.entry = true) :
    index.publish document set = index := by
  unfold publish replace?
  unfold VariableSet.entry at h
  by_cases he : set.isEmpty = true
  · simp only [he, ↓reduceIte] at h ⊢
    rcases ho : index[document]? with _ | old
    · have : index.contains document = false := by
        rw [ExtTreeMap.contains_eq_isSome_getElem?, ho]
        rfl
      simp [remove?, this]
    · rw [ho] at h
      cases h
  · simp only [he, Bool.false_eq_true, ↓reduceIte] at h ⊢
    rcases ho : index[document]? with _ | old
    · rw [ho] at h
      cases h
    · rw [ho] at h
      simp [VariableSet.agrees_symm h]

end Index

end ComputedTables
