import Mathlib.Data.List.Induction
import ComputedTables.Watch.Deadlines

/-!
# Waits and their history

A restart of a key is open as long as nothing behind it has dropped the key or given it out
(`OpenAt`).  What is waited for are the keys with an open restart, each until the delay after its
latest one (`deadline_after_iff`), so a key is given out once for all restarts since the last time.
An operation on another key changes nothing about a key (`getElem?_actAll_filter`).  All of it holds
for times in any order (`takeExpired_follows_history`).  A clock tells no time after its last one,
so there a history goes on only as long as the waits end before (`after?_eq_some_iff`).
-/

namespace ComputedTables

open Std (ExtTreeMap TransOrd OrientedCmp)

namespace Deadlines

/-- What can be done with deadlines. -/
inductive Operation (κ : Type) where
  | restart (key : κ) (now : Nat)
  | drop (key : κ)
  | takeExpired (now : Nat)
  deriving DecidableEq, Repr

variable {κ : Type} [Ord κ]

namespace Operation

/-- The time at which the operation restarts the wait for a key. -/
def restarts? (key : κ) : Operation κ → Option Nat
  | .restart k now => if compare k key = .eq then some now else none
  | _ => none

/-- Whether the operation names a key, or is for all keys. -/
def concerns (key : κ) : Operation κ → Bool
  | .restart k _ => compare k key == .eq
  | .drop k => compare k key == .eq
  | .takeExpired _ => true

/-- A wait that the operation starts ends at a time that the clock can tell. -/
def Fits (last delay : Nat) : Operation κ → Prop
  | .restart _ now => now + delay ≤ last
  | _ => True

instance (last delay : Nat) : DecidablePred (@Fits κ last delay)
  | .restart _ now => inferInstanceAs (Decidable (now + delay ≤ last))
  | .drop _ => inferInstanceAs (Decidable True)
  | .takeExpired _ => inferInstanceAs (Decidable True)

end Operation

variable [TransOrd κ]

def act (d : Deadlines κ) : Operation κ → Deadlines κ
  | .restart key now => d.restart key now
  | .drop key => (d.drop key).2
  | .takeExpired now => (d.takeExpired now).2

def actAll (d : Deadlines κ) (operations : List (Operation κ)) : Deadlines κ :=
  operations.foldl act d

/-- The deadlines after a history that starts without any. -/
def after (delay : Nat) (history : List (Operation κ)) : Deadlines κ :=
  actAll { delay } history

/-- An operation on a clock with a last time. -/
def act? (last : Nat) (d : Deadlines κ) : Operation κ → Option (Deadlines κ)
  | .restart key now => d.restart? last key now
  | .drop key => some (d.drop key).2
  | .takeExpired now => some (d.takeExpired now).2

/-- The deadlines after a history on a clock with a last time, if no operation fails. -/
def after? (last delay : Nat) (history : List (Operation κ)) : Option (Deadlines κ) :=
  history.foldlM (act? last) { delay }

/-- The key is among those that are given out. -/
def GivesOut (d : Deadlines κ) (now : Nat) (key : κ) : Prop :=
  ∃ k ∈ (d.takeExpired now).1, compare k key = .eq

/-- The operation drops the key, or gives it out. -/
def Ends (d : Deadlines κ) (key : κ) : Operation κ → Prop
  | .restart .. => False
  | .drop k => compare k key = .eq
  | .takeExpired now => d.GivesOut now key

/-- The operation with the number `i` restarts the wait for a key, and none behind it ends it. -/
def OpenAt (delay : Nat) (history : List (Operation κ)) (key : κ) (i restarted : Nat) : Prop :=
  history[i]?.bind (Operation.restarts? key) = some restarted ∧
    ∀ j operation, i < j → history[j]? = some operation →
      ¬ (after delay (history.take j)).Ends key operation

/-- Of the open restarts of a key, the one with the number `i` is the latest. -/
def LatestAt (delay : Nat) (history : List (Operation κ)) (key : κ) (i restarted : Nat) : Prop :=
  OpenAt delay history key i restarted ∧
    ∀ j other, OpenAt delay history key j other → j ≤ i

variable {d d' : Deadlines κ} {key : κ} {now delay i restarted : Nat} {operation : Operation κ}
  {history : List (Operation κ)}

/-! ### One operation -/

theorem exists_key_iff {β : Type} {map : ExtTreeMap κ β} :
    (∃ k ∈ map.keys, compare k key = .eq) ↔ map[key]?.isSome = true := by
  constructor
  · rintro ⟨k, hk, he⟩
    rw [← ExtTreeMap.getElem?_congr he, ← ExtTreeMap.mem_iff_isSome_getElem?]
    exact ExtTreeMap.mem_of_mem_keys hk
  · intro h
    obtain ⟨value, hv⟩ := Option.isSome_iff_exists.1 h
    obtain ⟨k, he, hm⟩ :=
      ExtTreeMap.getElem?_eq_some_iff_exists_compare_eq_eq_and_mem_toList.1 hv
    refine ⟨k, ?_, OrientedCmp.eq_symm he⟩
    rw [← ExtTreeMap.map_fst_toList_eq_keys]
    exact List.mem_map_of_mem hm

theorem givesOut_iff :
    d.GivesOut now key ↔ ∃ deadline, d.deadlines[key]? = some deadline ∧ deadline ≤ now := by
  unfold GivesOut takeExpired
  rw [exists_key_iff, ExtTreeMap.getElem?_filter]
  rcases d.deadlines[key]? with _ | deadline <;> simp

theorem delay_act (d : Deadlines κ) (operation : Operation κ) :
    (d.act operation).delay = d.delay := by
  cases operation <;> rfl

theorem getElem?_act_of_restarts (h : operation.restarts? key = some now) :
    (d.act operation).deadlines[key]? = some (now + d.delay) := by
  match operation, h with
  | .restart k _, h =>
    obtain ⟨hk, hnow⟩ := Option.ite_none_right_eq_some.1 h
    rw [← Option.some.inj hnow]
    exact ExtTreeMap.getElem?_insert.trans (if_pos hk)

theorem getElem?_act_of_ends (h : d.Ends key operation) :
    (d.act operation).deadlines[key]? = none := by
  match operation, h with
  | .drop k, h => exact ExtTreeMap.getElem?_erase.trans (if_pos h)
  | .takeExpired now, h =>
    obtain ⟨deadline, hd, hdue⟩ := givesOut_iff.1 h
    show (d.deadlines.filter _)[key]? = none
    rw [ExtTreeMap.getElem?_filter, hd]
    simpa using hdue

theorem getElem?_act_of_not (h : operation.restarts? key = none) (hends : ¬ d.Ends key operation) :
    (d.act operation).deadlines[key]? = d.deadlines[key]? := by
  match operation, h, hends with
  | .restart k now, h, _ =>
    exact ExtTreeMap.getElem?_insert.trans (if_neg fun hk => by simp [Operation.restarts?, hk] at h)
  | .drop k, _, hends => exact ExtTreeMap.getElem?_erase.trans (if_neg hends)
  | .takeExpired now, _, hends =>
    show (d.deadlines.filter _)[key]? = _
    rw [ExtTreeMap.getElem?_filter]
    rcases hd : d.deadlines[key]? with _ | deadline
    · rfl
    · have hlate : ¬ deadline ≤ now := fun hdue => hends (givesOut_iff.2 ⟨deadline, hd, hdue⟩)
      simpa using hlate

/-! ### Histories -/

theorem act?_eq (last : Nat) (d : Deadlines κ) (operation : Operation κ) :
    d.act? last operation
      = if operation.Fits last d.delay then some (d.act operation) else none := by
  cases operation with
  | restart key now => rfl
  | drop key => exact (if_pos trivial).symm
  | takeExpired now => exact (if_pos trivial).symm

theorem foldlM_act?_eq_some_iff {last : Nat} : ∀ {operations : List (Operation κ)}
    {d d' : Deadlines κ}, operations.foldlM (act? last) d = some d' ↔
      (∀ operation ∈ operations, operation.Fits last d.delay) ∧ d' = d.actAll operations
  | [], d, d' => by simp [actAll, eq_comm]
  | operation :: operations, d, d' => by
    rw [List.foldlM_cons, act?_eq, List.forall_mem_cons]
    by_cases hfits : operation.Fits last d.delay
    · rw [if_pos hfits]
      show operations.foldlM (act? last) (d.act operation) = some d' ↔ _
      rw [foldlM_act?_eq_some_iff, delay_act]
      exact ⟨fun ⟨hrest, he⟩ => ⟨⟨hfits, hrest⟩, he⟩, fun ⟨⟨_, hrest⟩, he⟩ => ⟨hrest, he⟩⟩
    · rw [if_neg hfits]
      exact ⟨nofun, fun h => absurd h.1.1 hfits⟩

/-- A history goes through if all its waits end at times that the clock can tell, and then the last
time makes no difference. -/
theorem after?_eq_some_iff {last : Nat} : after? last delay history = some d ↔
    (∀ operation ∈ history, operation.Fits last delay) ∧ d = after delay history :=
  foldlM_act?_eq_some_iff

theorem after_snoc (delay : Nat) (history : List (Operation κ)) (operation : Operation κ) :
    after delay (history ++ [operation]) = (after delay history).act operation := by
  simp [after, actAll]

theorem delay_after (delay : Nat) (history : List (Operation κ)) :
    (after delay history).delay = delay := by
  induction history using List.reverseRecOn with
  | nil => rfl
  | append_singleton history operation ih => rw [after_snoc, delay_act, ih]

theorem getElem?_snoc_eq_some {α : Type} {history : List α} {operation other : α} :
    (history ++ [operation])[i]? = some other ↔
      history[i]? = some other ∨ (i = history.length ∧ operation = other) := by
  rcases Nat.lt_trichotomy i history.length with h | rfl | h
  · rw [List.getElem?_append_left h]
    simp [Nat.ne_of_lt h]
  · simp
  · rw [List.getElem?_eq_none (by simp; omega), List.getElem?_eq_none (by omega)]
    simp [Nat.ne_of_gt h]

theorem OpenAt.lt_length (h : OpenAt delay history key i restarted) : i < history.length := by
  obtain ⟨operation, hi, -⟩ := Option.bind_eq_some_iff.1 h.1
  exact (List.getElem?_eq_some_iff.1 hi).1

/-- A restart is open after one more operation if it was open before and is not ended by it, or is
that operation. -/
theorem openAt_snoc : OpenAt delay (history ++ [operation]) key i restarted ↔
    (OpenAt delay history key i restarted ∧ ¬ (after delay history).Ends key operation) ∨
      (i = history.length ∧ operation.restarts? key = some restarted) := by
  have htake : ∀ j ≤ history.length, (history ++ [operation]).take j = history.take j :=
    fun j hj => List.take_append_of_le_length hj
  have hwhole : (history ++ [operation]).take history.length = history := List.take_left
  constructor
  · rintro ⟨hi, hrest⟩
    obtain ⟨restart, hi, hr⟩ := Option.bind_eq_some_iff.1 hi
    rcases getElem?_snoc_eq_some.1 hi with hi | ⟨rfl, rfl⟩
    · have hlt := (List.getElem?_eq_some_iff.1 hi).1
      refine .inl ⟨⟨Option.bind_eq_some_iff.2 ⟨restart, hi, hr⟩, fun j op hj hop => ?_⟩, ?_⟩
      · rw [← htake j (Nat.le_of_lt (List.getElem?_eq_some_iff.1 hop).1)]
        exact hrest j op hj (getElem?_snoc_eq_some.2 (.inl hop))
      · have := hrest _ operation hlt (getElem?_snoc_eq_some.2 (.inr ⟨rfl, rfl⟩))
        rwa [hwhole] at this
    · exact .inr ⟨rfl, hr⟩
  · rintro (⟨hopen, hends⟩ | ⟨rfl, hr⟩)
    · obtain ⟨restart, hi, hr⟩ := Option.bind_eq_some_iff.1 hopen.1
      refine ⟨Option.bind_eq_some_iff.2 ⟨restart, getElem?_snoc_eq_some.2 (.inl hi), hr⟩,
        fun j op hj hop => ?_⟩
      rcases getElem?_snoc_eq_some.1 hop with hop | ⟨rfl, rfl⟩
      · rw [htake j (Nat.le_of_lt (List.getElem?_eq_some_iff.1 hop).1)]
        exact hopen.2 j op hj hop
      · rwa [hwhole]
    · refine ⟨Option.bind_eq_some_iff.2 ⟨operation, getElem?_snoc_eq_some.2 (.inr ⟨rfl, rfl⟩), hr⟩,
        fun j op hj hop => ?_⟩
      have hlt := (List.getElem?_eq_some_iff.1 hop).1
      rw [List.length_append, List.length_singleton] at hlt
      omega

theorem not_openAt_of_ends (h : (after delay history).Ends key operation) :
    ¬ OpenAt delay (history ++ [operation]) key i restarted := by
  rw [openAt_snoc]
  rintro (⟨-, hends⟩ | ⟨-, hr⟩)
  · exact hends h
  · match operation, h, hr with
    | .drop _, _, hr => cases hr
    | .takeExpired _, _, hr => cases hr

theorem openAt_snoc_of_not (h : operation.restarts? key = none)
    (hends : ¬ (after delay history).Ends key operation) :
    OpenAt delay (history ++ [operation]) key i restarted ↔
      OpenAt delay history key i restarted := by
  simp [openAt_snoc, h, hends]

theorem latestAt_snoc (h : operation.restarts? key = some now) :
    LatestAt delay (history ++ [operation]) key history.length now := by
  refine ⟨openAt_snoc.2 (.inr ⟨rfl, h⟩), fun j other hj => ?_⟩
  have hlt := hj.lt_length
  rw [List.length_append, List.length_singleton] at hlt
  omega

theorem LatestAt.unique {j other : Nat} (h : LatestAt delay history key i restarted)
    (h' : LatestAt delay history key j other) : restarted = other := by
  obtain rfl : i = j := Nat.le_antisymm (h'.2 i restarted h.1) (h.2 j other h'.1)
  exact Option.some.inj (h.1.1.symm.trans h'.1.1)

/-- A key with an open restart is waited for until the delay after the latest one, and a key
without one is not waited for. -/
theorem deadline_after (delay : Nat) (history : List (Operation κ)) (key : κ) :
    (∃ i restarted, LatestAt delay history key i restarted ∧
        (after delay history).deadlines[key]? = some (restarted + delay)) ∨
      ((∀ i restarted, ¬ OpenAt delay history key i restarted) ∧
        (after delay history).deadlines[key]? = none) := by
  induction history using List.reverseRecOn with
  | nil =>
    exact .inr ⟨fun i restarted hopen => Nat.not_lt_zero i hopen.lt_length,
      ExtTreeMap.getElem?_empty⟩
  | append_singleton history operation ih =>
    rw [after_snoc]
    rcases hr : operation.restarts? key with _ | now
    · by_cases hends : (after delay history).Ends key operation
      · exact .inr ⟨fun _ _ => not_openAt_of_ends hends, getElem?_act_of_ends hends⟩
      · simpa only [LatestAt, openAt_snoc_of_not hr hends, getElem?_act_of_not hr hends] using ih
    · refine .inl ⟨_, now, latestAt_snoc hr, ?_⟩
      rw [getElem?_act_of_restarts hr, delay_after]

theorem givesOut_after_iff : (after delay history).GivesOut now key ↔
    ∃ i restarted, LatestAt delay history key i restarted ∧ restarted + delay ≤ now := by
  rw [givesOut_iff]
  rcases deadline_after delay history key with ⟨i, restarted, hlatest, hd⟩ | ⟨hopen, hd⟩
  · rw [hd]
    constructor
    · rintro ⟨deadline, h, hdue⟩
      cases h
      exact ⟨i, restarted, hlatest, hdue⟩
    · rintro ⟨_, other, hother, hdue⟩
      rw [← hlatest.unique hother] at hdue
      exact ⟨_, rfl, hdue⟩
  · rw [hd]
    refine ⟨nofun, ?_⟩
    rintro ⟨i, restarted, hlatest, -⟩
    exact absurd hlatest.1 (hopen i restarted)

theorem isSome_deadline_after_iff : (after delay history).deadlines[key]?.isSome = true ↔
    ∃ i restarted, OpenAt delay history key i restarted := by
  rcases deadline_after delay history key with ⟨i, restarted, hlatest, hd⟩ | ⟨hopen, hd⟩
  · rw [hd]
    exact ⟨fun _ => ⟨i, restarted, hlatest.1⟩, fun _ => rfl⟩
  · rw [hd]
    exact ⟨nofun, fun ⟨i, restarted, h⟩ => absurd h (hopen i restarted)⟩

theorem waitsFor_after_iff : (after delay history).waitsFor key = true ↔
    ∃ i restarted, OpenAt delay history key i restarted := by
  rw [waitsFor, ExtTreeMap.contains_iff_mem, ExtTreeMap.mem_iff_isSome_getElem?,
    isSome_deadline_after_iff]

/-! ### Other keys -/

theorem act_congr (hdelay : d.delay = d'.delay) (h : d.deadlines[key]? = d'.deadlines[key]?)
    (operation : Operation κ) :
    (d.act operation).deadlines[key]? = (d'.act operation).deadlines[key]? := by
  have hends : d.Ends key operation ↔ d'.Ends key operation := by
    cases operation with
    | restart => exact Iff.rfl
    | drop => exact Iff.rfl
    | takeExpired now =>
      show d.GivesOut now key ↔ d'.GivesOut now key
      rw [givesOut_iff, givesOut_iff, h]
  rcases hr : operation.restarts? key with _ | now
  · by_cases he : d.Ends key operation
    · rw [getElem?_act_of_ends he, getElem?_act_of_ends (hends.1 he)]
    · rw [getElem?_act_of_not hr he, getElem?_act_of_not hr fun h' => he (hends.2 h'), h]
  · rw [getElem?_act_of_restarts hr, getElem?_act_of_restarts hr, hdelay]

theorem getElem?_act_of_not_concerns (h : operation.concerns key = false) :
    (d.act operation).deadlines[key]? = d.deadlines[key]? := by
  match operation, h with
  | .restart k now, h =>
    have hk : ¬ compare k key = .eq := beq_eq_false_iff_ne.1 h
    exact getElem?_act_of_not (if_neg hk) fun hends => hends
  | .drop k, h => exact getElem?_act_of_not rfl (beq_eq_false_iff_ne.1 h)

/-- Only the operations that concern a key count for it. -/
theorem getElem?_actAll_filter : ∀ (operations : List (Operation κ)) (d d' : Deadlines κ),
    d.delay = d'.delay → d.deadlines[key]? = d'.deadlines[key]? →
      (d.actAll (operations.filter (Operation.concerns key))).deadlines[key]?
        = (d'.actAll operations).deadlines[key]?
  | [], _, _, _, h => h
  | operation :: operations, d, d', hdelay, h => by
    rcases hc : operation.concerns key with _ | _
    · rw [List.filter_cons_of_neg (by simp [hc])]
      refine getElem?_actAll_filter operations d (d'.act operation) ?_ ?_
      · rw [delay_act, hdelay]
      · rw [getElem?_act_of_not_concerns hc, h]
    · rw [List.filter_cons_of_pos hc]
      refine getElem?_actAll_filter operations (d.act operation) (d'.act operation) ?_ ?_
      · rw [delay_act, delay_act, hdelay]
      · exact act_congr hdelay h operation

/-- A key that has been given out is not given out again before it is restarted. -/
theorem not_givesOut_again {later : List (Operation κ)} {now' : Nat}
    (h : (after delay history).GivesOut now key)
    (hlater : ∀ operation ∈ later, operation.restarts? key = none) :
    ¬ (after delay (history ++ .takeExpired now :: later)).GivesOut now' key := by
  rw [givesOut_after_iff]
  rintro ⟨i, restarted, ⟨hopen, -⟩, -⟩
  obtain ⟨operation, hi, hr⟩ := Option.bind_eq_some_iff.1 hopen.1
  rcases Nat.lt_trichotomy i history.length with hlt | rfl | hgt
  · -- what gave the key out stands behind the restart
    have hended := hopen.2 history.length (.takeExpired now) hlt (by simp)
    rw [List.take_left] at hended
    exact hended h
  · simp at hi
    rw [← hi] at hr
    cases hr
  · have hmem : operation ∈ later := by
      rw [List.getElem?_append_right (by omega)] at hi
      obtain ⟨n, hn⟩ : ∃ n, i - history.length = n + 1 := ⟨i - history.length - 1, by omega⟩
      rw [hn, List.getElem?_cons_succ] at hi
      exact List.mem_of_getElem? hi
    rw [hlater operation hmem] at hr
    cases hr

/-- What is waited for can be told by the clock. -/
theorem deadline_le {last deadline : Nat} (h : ∀ operation ∈ history, operation.Fits last delay)
    (hd : (after delay history).deadlines[key]? = some deadline) : deadline ≤ last := by
  rcases deadline_after delay history key with ⟨i, restarted, hlatest, he⟩ | ⟨-, he⟩
  · obtain ⟨operation, hi, hr⟩ := Option.bind_eq_some_iff.1 hlatest.1.1
    have hfits := h operation (List.mem_of_getElem? hi)
    rw [← Option.some.inj (he.symm.trans hd)]
    match operation, hr, hfits with
    | .restart k now, hr, hfits =>
      obtain ⟨-, hnow⟩ := Option.ite_none_right_eq_some.1 hr
      rwa [← Option.some.inj hnow]
  · cases he.symm.trans hd

theorem deadline_after_congr (delay : Nat) {other : List (Operation κ)}
    (h : other.filter (Operation.concerns key) = history.filter (Operation.concerns key)) :
    (after delay other).deadlines[key]? = (after delay history).deadlines[key]? := by
  unfold after
  rw [← getElem?_actAll_filter other { delay } { delay } rfl rfl, h,
    getElem?_actAll_filter history { delay } { delay } rfl rfl]

/-- Whatever is done at whatever times, on a clock that can tell when the waits end, exactly the
keys are given out, each once, whose latest open restart is at least the delay ago, and exactly
those with an open restart are waited for and counted.  A key is given out once for all restarts
since it was last given out, and operations on other keys do not matter to it. -/
theorem takeExpired_follows_history (last delay : Nat) (history : List (Operation κ)) :
    ((after? last delay history).isSome = true ↔
      ∀ operation ∈ history, operation.Fits last delay) ∧
    ∀ d, after? last delay history = some d →
      (∀ now, (d.takeExpired now).1.Pairwise (fun a b => ¬ compare a b = .eq) ∧
        ∀ key, (∃ k ∈ (d.takeExpired now).1, compare k key = .eq) ↔
          ∃ i restarted, LatestAt delay history key i restarted ∧ restarted + delay ≤ now) ∧
      (∀ key, d.waitsFor key = true ↔ ∃ i restarted, OpenAt delay history key i restarted) ∧
      (∃ keys : List κ, keys.length = d.size ∧ keys.Pairwise (fun a b => ¬ compare a b = .eq) ∧
        ∀ key, (∃ k ∈ keys, compare k key = .eq) ↔
          ∃ i restarted, OpenAt delay history key i restarted) ∧
      (∀ (key : κ) (deadline : Nat), d.deadlines[key]? = some deadline → deadline ≤ last) ∧
      (∀ key now later now' d', d.GivesOut now key →
        (∀ operation ∈ later, operation.restarts? key = none) →
          after? last delay (history ++ .takeExpired now :: later) = some d' →
            ¬ d'.GivesOut now' key) ∧
      ∀ key other d',
        other.filter (Operation.concerns key) = history.filter (Operation.concerns key) →
          after? last delay other = some d' → d'.waitsFor key = d.waitsFor key ∧
            ∀ now, d'.GivesOut now key ↔ d.GivesOut now key := by
  refine ⟨?_, fun d hd => ?_⟩
  · rw [Option.isSome_iff_exists]
    exact ⟨fun ⟨d, hd⟩ => (after?_eq_some_iff.1 hd).1,
      fun hfits => ⟨_, after?_eq_some_iff.2 ⟨hfits, rfl⟩⟩⟩
  · obtain ⟨hfits, rfl⟩ := after?_eq_some_iff.1 hd
    refine ⟨fun now => ⟨ExtTreeMap.distinct_keys, fun key => givesOut_after_iff⟩,
      fun key => waitsFor_after_iff, ⟨_, ExtTreeMap.length_keys, ExtTreeMap.distinct_keys,
        fun key => exists_key_iff.trans isSome_deadline_after_iff⟩,
      fun key deadline => deadline_le hfits, fun key now later now' d' hout hlater hd' => ?_,
      fun key other d' hother hd' => ?_⟩
    · obtain ⟨-, rfl⟩ := after?_eq_some_iff.1 hd'
      exact not_givesOut_again hout hlater
    · obtain ⟨-, rfl⟩ := after?_eq_some_iff.1 hd'
      have hsame := deadline_after_congr delay hother
      refine ⟨?_, fun now => by rw [givesOut_iff, givesOut_iff, hsame]⟩
      rw [Bool.eq_iff_iff, waitsFor_after_iff, waitsFor_after_iff, ← isSome_deadline_after_iff,
        ← isSome_deadline_after_iff, hsame]

theorem takeExpired_follows_history_two_keys :
    let history : List (Operation String) := [.restart "a" 400, .restart "b" 300, .restart "a" 100]
    let d := after 500 history
    after? 900 500 history = some d ∧ (after? 899 500 history).isSome = false ∧
      LatestAt 500 history "a" 2 100 ∧ d.GivesOut 600 "a" ∧
      (∃ i restarted, OpenAt 500 history "b" i restarted) ∧
      ¬ (after 500 (history ++ [.takeExpired 600, .restart "b" 50])).GivesOut 2000 "a" ∧
      (after 500 [.restart "b" 300]).waitsFor "b" = d.waitsFor "b" := by
  intro history d
  let first : List (Operation String) := [.restart "a" 400, .restart "b" 300]
  have hlatest : LatestAt 500 (first ++ [.restart "a" 100]) "a" first.length 100 :=
    latestAt_snoc rfl
  have hd : after? 900 500 history = some d := rfl
  have hfails : ¬ (after? 899 500 history).isSome = true := by
    rw [(takeExpired_follows_history 899 500 history).1]
    decide
  obtain ⟨hout, hwaits, -, -, hagain, hothers⟩ :=
    (takeExpired_follows_history 900 500 history).2 d hd
  have ha : d.GivesOut 600 "a" := ((hout 600).2 "a").2 ⟨2, 100, hlatest, Nat.le_refl 600⟩
  refine ⟨hd, Bool.eq_false_iff.2 hfails, hlatest, ha, (hwaits "b").1 (by decide +kernel), ?_, ?_⟩
  · refine hagain "a" 600 [.restart "b" 50] 2000 _ ha (fun operation hmem => ?_) rfl
    rw [List.mem_singleton.1 hmem]
    rfl
  · exact (hothers "b" [.restart "b" 300] _ (by decide +kernel) rfl).1

end Deadlines

end ComputedTables
