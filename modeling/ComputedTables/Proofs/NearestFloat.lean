import ComputedTables.Proofs.PackedFloats
import ComputedTables.Proofs.Rounding

/-!
# The nearest number

A size is rounded to the finite number that is nearest to it, of two that are equally near to the
one with an even mantissa, and to infinity if it is too large for that (`Magnitude.IsNearest`).
What the arithmetic returns is that number, once it is packed (`RoundsTo.isNearest`), and there is
one such number only (`IsNearest.unique`): between two numbers with even mantissas there is a third,
which would be nearer.
-/

namespace ComputedTables.Decimal

open Float.Model UnpackedFloat

/-- From here on a size is as near to `2 ^ 1024` as to the greatest finite number, or nearer. -/
def overflowBound : ℚ := 2 ^ 1024 - 2 ^ 970

/-- What a size is rounded to: the nearest finite number, of two that are equally near the one with
an even mantissa, and infinity from a bound on. -/
def Magnitude.IsNearest (size : ℚ) : Magnitude → Prop
  | .nan => False
  | .infinite => overflowBound ≤ size
  | .finite mantissa exponent => size < overflowBound ∧
      ∀ (y : Float) (m : ℕ) (e : ℤ), (Binary.ofFloat y).magnitude = .finite m e →
        |size - mantissa * 2 ^ exponent| ≤ |size - m * 2 ^ e| ∧
        (|size - mantissa * 2 ^ exponent| = |size - m * 2 ^ e| →
          (mantissa : ℚ) * 2 ^ exponent ≠ m * 2 ^ e → Even mantissa)

/-- `x` is the number that `size` is rounded to, with the given sign. -/
structure IsNearest (negative : Bool) (size : ℚ) (x : Float) : Prop where
  negative : (Binary.ofFloat x).negative = negative
  magnitude : (Binary.ofFloat x).magnitude.IsNearest size

theorem overflowBound_eq : overflowBound = (2 ^ 53 - 1 / 2) * 2 ^ (971 : ℤ) := by
  have hhigh : (2 : ℚ) ^ 1024 = 2 ^ 53 * 2 ^ 971 := by rw [← pow_add]
  have hlow : (2 : ℚ) ^ 971 = 2 ^ 970 * 2 := pow_succ 2 970
  have hcast : (2 : ℚ) ^ (971 : ℤ) = 2 ^ 971 := zpow_natCast 2 971
  rw [overflowBound, hcast, hhigh, hlow]
  generalize (2 : ℚ) ^ 970 = a
  ring

theorem two_pow_le_overflowBound : (2 : ℚ) ^ (1023 : ℤ) ≤ overflowBound := by
  have hsplit : (2 : ℚ) ^ (1023 : ℤ) = 2 ^ 52 * 2 ^ (971 : ℤ) := by
    rw [← zpow_natCast, ← zpow_add₀ two_ne_zero]
    rfl
  have hpow : (0 : ℚ) < 2 ^ (971 : ℤ) := by positivity
  rw [overflowBound_eq, hsplit]
  gcongr
  norm_num

theorem overflowBound_le_two_pow : overflowBound ≤ (2 : ℚ) ^ (1024 : ℤ) := by
  have hcast : (2 : ℚ) ^ (1024 : ℤ) = 2 ^ 1024 := zpow_natCast 2 1024
  rw [overflowBound, hcast]
  exact sub_le_self _ (by positivity)

namespace RoundsTo

variable {s : Sign} {q : ℚ} {u : UnpackedFloat} {units : ℕ} {t : ℤ}

theorem two_pow_le_units (h : RoundsTo s q u units t) (ht : t ≠ -1074) : 2 ^ 52 ≤ units := by
  refine h.isRounded.le_natCast ?_
  rw [le_div_iff₀ (by positivity)]
  have hge := h.ge.resolve_left ht
  rw [add_comm, zpow_add₀ two_ne_zero] at hge
  exact_mod_cast hge

theorem abs_sub_eq (q : ℚ) (n : ℚ) (t : ℤ) : |q - n * 2 ^ t| = |q / 2 ^ t - n| * 2 ^ t := by
  have hpow : (0 : ℚ) < 2 ^ t := by positivity
  rw [← abs_of_pos hpow, ← abs_mul, abs_of_pos hpow, sub_mul, div_mul_cancel₀ _ hpow.ne']

/-- No number is nearer than the nearest multiple of the unit in the last place. -/
theorem nearest (h : RoundsTo s q u units t) {m : ℕ} {e : ℤ} (hm : IsCanonical m e) :
    |q - units * 2 ^ t| ≤ |q - m * 2 ^ e| ∧ (|q - units * 2 ^ t| = |q - m * 2 ^ e| →
      (units : ℚ) * 2 ^ t ≠ m * 2 ^ e → Even units) := by
  have hpow : (0 : ℚ) < 2 ^ t := by positivity
  rcases le_or_gt t e with hte | hte
  · -- the other number is a multiple of the unit, too
    obtain ⟨k, hk⟩ : ∃ k : ℕ, (m : ℚ) * 2 ^ e = k * 2 ^ t := by
      obtain ⟨d, rfl⟩ : ∃ d : ℕ, e = d + t := ⟨(e - t).toNat, by omega⟩
      refine ⟨m * 2 ^ d, ?_⟩
      rw [zpow_add₀ two_ne_zero, zpow_natCast]
      push_cast
      ring
    rw [hk, abs_sub_eq, abs_sub_eq]
    refine ⟨mul_le_mul_of_nonneg_right (h.isRounded.le_of k) hpow.le, fun heq hne => ?_⟩
    refine h.isRounded.even_of_eq (k := k) ?_ (mul_right_cancel₀ hpow.ne' heq)
    rintro rfl
    exact hne rfl
  · -- the other number is less than a power of two, which is itself a multiple of the unit
    have hge := h.ge.resolve_left (by have := hm.exponent_ge; omega)
    have hless : (m : ℚ) * 2 ^ e < 2 ^ (t + 52) := by
      have hlt : (m : ℚ) < 2 ^ (53 : ℤ) := by exact_mod_cast hm.lt
      calc (m : ℚ) * 2 ^ e < 2 ^ (53 : ℤ) * 2 ^ e := by gcongr
        _ = 2 ^ (53 + e) := (zpow_add₀ two_ne_zero _ _).symm
        _ ≤ 2 ^ (t + 52) := zpow_le_zpow_right₀ one_le_two (by omega)
    have hstrict : |q - units * 2 ^ t| < |q - m * 2 ^ e| := by
      have hnear := mul_le_mul_of_nonneg_right (h.isRounded.le_of (2 ^ 52)) hpow.le
      rw [← abs_sub_eq, ← abs_sub_eq] at hnear
      have hsame : ((2 ^ 52 : ℕ) : ℚ) * 2 ^ t = 2 ^ (t + 52) := by
        rw [add_comm, zpow_add₀ two_ne_zero]
        norm_num
      rw [hsame, abs_of_nonneg (sub_nonneg.2 hge)] at hnear
      rw [abs_of_nonneg (by linarith : 0 ≤ q - m * 2 ^ e)]
      linarith
    exact ⟨hstrict.le, fun heq => absurd heq hstrict.ne⟩

theorem lt_overflowBound_of_le (h : RoundsTo s q u units t) (ht : t ≤ 970) :
    q < overflowBound := by
  have hle : (2 : ℚ) ^ (t + 53) ≤ 2 ^ (1023 : ℤ) := zpow_le_zpow_right₀ one_le_two (by omega)
  exact h.lt.trans_le (hle.trans two_pow_le_overflowBound)

theorem overflowBound_le_of_ge (h : RoundsTo s q u units t) (ht : 972 ≤ t) :
    overflowBound ≤ q := by
  have hge := h.ge.resolve_left (by omega)
  have hle : (2 : ℚ) ^ (1024 : ℤ) ≤ 2 ^ (t + 52) := zpow_le_zpow_right₀ one_le_two (by omega)
  exact overflowBound_le_two_pow.trans (hle.trans hge)

/-- Between the greatest finite number and the power of two after it, the bound is half way; of the
two the power has the even mantissa. -/
theorem overflowBound_le_iff_carry (h : RoundsTo s q u units 971) :
    overflowBound ≤ q ↔ units = 2 ^ 53 := by
  have hpow : (0 : ℚ) < 2 ^ (971 : ℤ) := by positivity
  have hrounded := h.isRounded
  have hunits := h.isRounded.le_two_pow h.lt
  rw [overflowBound_eq, ← le_div_iff₀ hpow]
  generalize q / 2 ^ (971 : ℤ) = r at hrounded ⊢
  have hnear := abs_le.1 hrounded.near
  constructor
  · intro hge
    refine le_antisymm hunits (not_lt.1 fun hlt => ?_)
    have hle : (units : ℚ) ≤ 2 ^ 53 - 1 := by
      have : ((units + 1 : ℕ) : ℚ) ≤ (2 ^ 53 : ℕ) := by exact_mod_cast hlt
      push_cast at this
      linarith
    have htie : r - units = 1 / 2 := by linarith
    have heven := hrounded.even (by rw [htie]; norm_num)
    have hunits : units = 2 ^ 53 - 1 := by
      have : (units : ℚ) = (2 ^ 53 - 1 : ℕ) := by
        push_cast [Nat.one_le_two_pow]
        linarith
      exact_mod_cast this
    rw [hunits] at heven
    exact absurd heven (by decide)
  · rintro rfl
    push_cast at hnear
    linarith

theorem overflowBound_le_iff (h : RoundsTo s q u units t) :
    overflowBound ≤ q ↔ 972 ≤ t ∨ t = 971 ∧ units = 2 ^ 53 := by
  rcases lt_trichotomy t 971 with hlt | rfl | hgt
  · exact iff_of_false (not_le.2 (h.lt_overflowBound_of_le (by omega))) (by omega)
  · simp [h.overflowBound_le_iff_carry]
  · exact iff_of_true (h.overflowBound_le_of_ge (by omega)) (.inl (by omega))

/-- The rounded size is the nearest one however it is written, unless there is no such number. -/
theorem isNearest_finite (h : RoundsTo s q u units t) {m : ℕ} {e : ℤ}
    (hvalue : (units : ℚ) * 2 ^ t = m * 2 ^ e) (heven : Even units → Even m)
    (hlt : q < overflowBound) : (Magnitude.finite m e).IsNearest q := by
  refine ⟨hlt, fun y m' e' hy => ?_⟩
  obtain ⟨hle, htie⟩ := h.nearest (isCanonical_of_ofFloat hy).1
  rw [← hvalue]
  exact ⟨hle, fun heq hne => heven (htie heq hne)⟩

/-- What is rounded when it is unpacked is the nearest number when it is packed. -/
theorem isNearest (h : RoundsTo s q u units t) :
    IsNearest (s == .negative) q (.ofModel (.pack u)) := by
  suffices hbinary : ∃ magnitude, Binary.ofFloat (.ofModel (.pack u)) = ⟨s == .negative, magnitude⟩
      ∧ magnitude.IsNearest q by
    obtain ⟨magnitude, hpack, hnearest⟩ := hbinary
    exact ⟨by rw [hpack], by rwa [hpack]⟩
  have hge := h.exponent_ge
  have hinfinite := h.overflowBound_le_iff
  rw [ofFloat_eq_ofUnpacked, h.eq_ofUnits]
  unfold ofUnits
  split
  · rename_i hzero
    rw [unpack_pack_zero]
    have ht : t = -1074 := by
      by_contra ht
      have := h.two_pow_le_units ht
      omega
    exact ⟨_, rfl, h.isNearest_finite (by simp [hzero]) (fun _ => Even.zero)
      (not_le.1 (mt hinfinite.1 (by omega)))⟩
  · rename_i hpos
    have hcanonical : 2 ^ 52 ≤ units ∨ t = -1074 := by
      by_cases ht : t = -1074
      · exact .inr ht
      · exact .inl (h.two_pow_le_units ht)
    split
    · rename_i hlt
      rw [unpack_pack_finite _ _ ⟨hlt, hge, hcanonical⟩]
      split
      · exact ⟨_, rfl, hinfinite.2 (by omega)⟩
      · exact ⟨_, rfl, h.isNearest_finite rfl id (not_le.1 (mt hinfinite.1 (by omega)))⟩
    · have hunits := h.isRounded.le_two_pow h.lt
      have hcarry : units = 2 ^ 53 := by omega
      rw [unpack_pack_finite _ _ ⟨by decide, by omega, .inl le_rfl⟩]
      split
      · exact ⟨_, rfl, hinfinite.2 (by omega)⟩
      · refine ⟨_, rfl, h.isNearest_finite ?_ (fun _ => by decide)
          (not_le.1 (mt hinfinite.1 (by omega)))⟩
        rw [hcarry, zpow_add₀ two_ne_zero]
        push_cast
        ring

end RoundsTo

/-! ### Sizes out of range -/

/-- A size below half of the least positive number. -/
structure IsTiny (q : ℚ) : Prop where
  nonneg : 0 ≤ q
  lt : q < 2 ^ (-1075 : ℤ)

theorem two_pow_le_of_isCanonical {m : ℕ} {e : ℤ} (h : IsCanonical m e) (hm : m ≠ 0) :
    2 * 2 ^ (-1075 : ℤ) ≤ (m : ℚ) * 2 ^ e := by
  have hone : (1 : ℚ) ≤ m := by exact_mod_cast Nat.one_le_iff_ne_zero.2 hm
  have hpow : (2 : ℚ) ^ (-1074 : ℤ) ≤ 2 ^ e := zpow_le_zpow_right₀ one_le_two h.exponent_ge
  calc (2 : ℚ) * 2 ^ (-1075 : ℤ) = 2 ^ (-1074 : ℤ) := (zpow_one_add₀ two_ne_zero _).symm
    _ ≤ 2 ^ e := hpow
    _ ≤ m * 2 ^ e := le_mul_of_one_le_left (by positivity) hone

namespace IsTiny

variable {q q' : ℚ}

theorem lt_overflowBound (h : IsTiny q) : q < overflowBound :=
  h.lt.trans_le ((zpow_le_zpow_right₀ one_le_two (by decide)).trans two_pow_le_overflowBound)

theorem isNearest_zero (h : IsTiny q) (e : ℤ) : (Magnitude.finite 0 e).IsNearest q := by
  refine ⟨h.lt_overflowBound, fun y m e' hy => ⟨?_, fun _ _ => Even.zero⟩⟩
  rw [Nat.cast_zero, zero_mul, sub_zero, abs_of_nonneg h.nonneg]
  by_cases hm : m = 0
  · rw [hm, Nat.cast_zero, zero_mul, sub_zero, abs_of_nonneg h.nonneg]
  · have hfar := two_pow_le_of_isCanonical (isCanonical_of_ofFloat hy).1 hm
    have hlt := h.lt
    linarith [neg_le_abs (q - m * 2 ^ e')]

/-- All tiny sizes are rounded to zero. -/
theorem isNearest (h : IsTiny q) (h' : IsTiny q') {negative : Bool} {x : Float}
    (hx : IsNearest negative q x) : IsNearest negative q' x := by
  refine ⟨hx.negative, ?_⟩
  have hnearest := hx.magnitude
  rcases hmagnitude : (Binary.ofFloat x).magnitude with _ | _ | ⟨m, e⟩ <;>
    rw [hmagnitude] at hnearest
  · exact hnearest
  · exact absurd h.lt_overflowBound (not_lt.2 hnearest)
  · obtain rfl : m = 0 := by
      by_contra hm
      have hzero : (Binary.ofFloat 0).magnitude = .finite 0 (-1074) := by decide
      have hle := (hnearest.2 0 0 (-1074) hzero).1
      have hfar := two_pow_le_of_isCanonical (isCanonical_of_ofFloat hmagnitude).1 hm
      have hlt := h.lt
      rw [Nat.cast_zero, zero_mul, sub_zero, abs_of_nonneg h.nonneg] at hle
      linarith [neg_le_abs (q - m * 2 ^ e)]
    exact h'.isNearest_zero e

end IsTiny

/-- All sizes from the bound on are rounded to infinity. -/
theorem IsNearest.of_overflowBound_le {negative : Bool} {q q' : ℚ} {x : Float}
    (hx : IsNearest negative q x) (hq : overflowBound ≤ q) (hq' : overflowBound ≤ q') :
    IsNearest negative q' x := by
  refine ⟨hx.negative, ?_⟩
  have hnearest := hx.magnitude
  rcases hmagnitude : (Binary.ofFloat x).magnitude with _ | _ | ⟨m, e⟩ <;>
    rw [hmagnitude] at hnearest
  · exact hnearest
  · exact hq'
  · exact absurd hnearest.1 (not_lt.2 hq)

theorem isNearest_zero {q : ℚ} (h : IsTiny q) (s : Sign) :
    IsNearest (s == .negative) q (.ofModel (.pack (.zero s))) := by
  have hbinary : Binary.ofFloat (.ofModel (.pack (.zero s)))
      = ⟨s == .negative, .finite 0 (-1074)⟩ := by
    rw [ofFloat_eq_ofUnpacked, unpack_pack_zero]
    rfl
  exact ⟨by rw [hbinary], by rw [hbinary]; exact h.isNearest_zero _⟩

theorem isNearest_infinity {q : ℚ} (h : overflowBound ≤ q) (s : Sign) :
    IsNearest (s == .negative) q (.ofModel (.pack (.infinity s))) := by
  have hbinary : Binary.ofFloat (.ofModel (.pack (.infinity s))) = ⟨s == .negative, .infinite⟩ := by
    rw [ofFloat_eq_ofUnpacked, unpack_pack_infinity]
    rfl
  exact ⟨by rw [hbinary], by rw [hbinary]; exact h⟩

theorem isTiny_zero : IsTiny 0 :=
  ⟨le_rfl, by positivity⟩

/-! ### One number only -/

theorem Magnitude.IsNearest.not_lt {q : ℚ} {x y : Float} {m m' : ℕ} {e e' : ℤ}
    (hx : (Binary.ofFloat x).magnitude = .finite m e)
    (hy : (Binary.ofFloat y).magnitude = .finite m' e')
    (h : (Magnitude.finite m e).IsNearest q) (h' : (Magnitude.finite m' e').IsNearest q) :
    ¬ (m : ℚ) * 2 ^ e < m' * 2 ^ e' := by
  intro hlt
  obtain ⟨hle, htie⟩ := h.2 y m' e' hy
  obtain ⟨hle', htie'⟩ := h'.2 x m e hx
  have heq := le_antisymm hle hle'
  obtain ⟨hm, -⟩ := isCanonical_of_ofFloat hx
  obtain ⟨hm', he'⟩ := isCanonical_of_ofFloat hy
  obtain ⟨z, k, hz, hlow, hhigh⟩ := hm.exists_between hm' he' (htie heq hlt.ne)
    (htie' heq.symm hlt.ne') hlt
  have hnear := (h.2 z k e hz).1
  -- the size is half way between the two, so what is between them is nearer
  rcases abs_eq_abs.1 heq with hsame | hopposite
  · linarith
  · have hmiddle : |q - m * 2 ^ e| = q - m * 2 ^ e := abs_of_nonneg (by linarith)
    rw [hmiddle] at hnear
    rcases abs_cases (q - k * 2 ^ e) with ⟨habs, -⟩ | ⟨habs, -⟩ <;> rw [habs] at hnear <;> linarith

/-- A size is rounded to one number only. -/
theorem IsNearest.unique {negative : Bool} {q : ℚ} {x y : Float} (hx : IsNearest negative q x)
    (hy : IsNearest negative q y) : x = y := by
  refine Binary.ofFloat_injective ?_
  suffices hmagnitude : (Binary.ofFloat x).magnitude = (Binary.ofFloat y).magnitude by
    rcases hbx : Binary.ofFloat x with ⟨n, m⟩
    rcases hby : Binary.ofFloat y with ⟨n', m'⟩
    have hn := hx.negative.trans hy.negative.symm
    rw [hbx, hby] at hmagnitude hn
    exact congrArg₂ Binary.mk hn hmagnitude
  have hnx := hx.magnitude
  have hny := hy.magnitude
  rcases hmx : (Binary.ofFloat x).magnitude with _ | _ | ⟨m, e⟩ <;>
    rcases hmy : (Binary.ofFloat y).magnitude with _ | _ | ⟨m', e'⟩ <;> rw [hmx] at hnx <;>
    rw [hmy] at hny
  case finite.finite =>
    have heq := le_antisymm (not_lt.1 (hny.not_lt hmy hmx hnx)) (not_lt.1 (hnx.not_lt hmx hmy hny))
    obtain ⟨rfl, rfl⟩ :=
      (isCanonical_of_ofFloat hmx).1.eq_of_value_eq (isCanonical_of_ofFloat hmy).1 heq
    rfl
  case infinite.finite => exact absurd hny.1 (not_lt.2 hnx)
  case finite.infinite => exact absurd hnx.1 (not_lt.2 hny)
  all_goals first | exact hnx.elim | exact hny.elim

end ComputedTables.Decimal
