import Mathlib
import ComputedTables.Decimal.Binary

/-!
# Binary numbers are rounded correctly

Quotients and products of binary64 numbers are computed on a mantissa with two residual bits: a
round bit for the half of the last place, and a sticky bit for whatever is behind it.  As long as
the bits are kept right (`Approximates.shiftRight`), rounding by them is rounding the exact number
to a whole count of its last place, ties to the even count (`Approximates.isRounded`).  Division and
multiplication therefore return the exact quotient and product, rounded to a multiple of the last
place that numbers of this size have (`roundsTo_div`, `roundsTo_mul`).  The range of the exponents
has no upper end here; it gets one when a number is packed.
-/

namespace ComputedTables.Decimal

open Float.Model UnpackedFloat

/-- `n` is a natural number nearest to `q`, and the even one of two that are equally near. -/
structure IsRounded (q : ℚ) (n : ℕ) : Prop where
  near : |q - n| ≤ 1 / 2
  even : |q - n| = 1 / 2 → Even n

namespace IsRounded

variable {q : ℚ} {n k : ℕ}

theorem half_le_of_ne (h : IsRounded q n) (hk : k ≠ n) : 1 / 2 ≤ |q - k| := by
  have hone : (1 : ℚ) ≤ |(k : ℚ) - n| := by
    have hint : (1 : ℤ) ≤ |(k : ℤ) - n| := Int.one_le_abs (by omega)
    exact_mod_cast hint
  have htriangle : |(k : ℚ) - n| ≤ |q - k| + |q - n| := by
    have := abs_sub_le (k : ℚ) q n
    rwa [abs_sub_comm (k : ℚ) q] at this
  linarith [h.near]

theorem le_of (h : IsRounded q n) (k : ℕ) : |q - n| ≤ |q - k| := by
  by_cases hk : k = n
  · rw [hk]
  · exact h.near.trans (h.half_le_of_ne hk)

theorem even_of_eq (h : IsRounded q n) (hk : k ≠ n) (heq : |q - n| = |q - k|) : Even n :=
  h.even (le_antisymm h.near (heq ▸ h.half_le_of_ne hk))

theorem of_lt (h : |q - n| < 1 / 2) : IsRounded q n :=
  ⟨h.le, fun heq => absurd heq h.ne⟩

theorem of_half (h : q - n = 1 / 2) : IsRounded q (n + n % 2) := by
  rcases Nat.mod_two_eq_zero_or_one n with hn | hn <;> rw [hn]
  · rw [Nat.add_zero]
    exact ⟨by rw [h]; norm_num, fun _ => Nat.even_iff.2 hn⟩
  · have hnext : q - (n + 1 : ℕ) = -(1 / 2) := by
      push_cast
      linarith
    exact ⟨by rw [hnext]; norm_num, fun _ => Nat.even_add_one.2 (Nat.not_even_iff.2 hn)⟩

theorem natCast_le (h : IsRounded q n) (hq : q ≤ k) : n ≤ k := by
  have hnear := (abs_le.1 h.near).1
  have hlt : (n : ℚ) < (k + 1 : ℕ) := by
    push_cast
    linarith
  exact Nat.lt_succ_iff.1 (by exact_mod_cast hlt)

theorem le_natCast (h : IsRounded q n) (hq : k ≤ q) : k ≤ n := by
  have hnear := (abs_le.1 h.near).2
  have hlt : (k : ℚ) < (n + 1 : ℕ) := by
    push_cast
    linarith
  exact Nat.lt_succ_iff.1 (by exact_mod_cast hlt)

/-- A size with fifty-three digits before the last place is rounded to at most the next power. -/
theorem le_two_pow {t : ℤ} (h : IsRounded (q / 2 ^ t) n) (hq : q < 2 ^ (t + 53)) :
    n ≤ 2 ^ 53 := by
  refine h.natCast_le ?_
  rw [add_comm, zpow_add₀ two_ne_zero] at hq
  rw [div_le_iff₀ (by positivity)]
  exact_mod_cast hq.le

end IsRounded

theorem natCast_div_eq (n : ℕ) {d : ℕ} (hd : 0 < d) :
    (n : ℚ) / d = (n / d : ℕ) + (n % d : ℕ) / d := by
  have hpos : (0 : ℚ) < d := by exact_mod_cast hd
  have hdiv : (n : ℚ) = d * (n / d : ℕ) + (n % d : ℕ) := by
    exact_mod_cast (Nat.div_add_mod n d).symm
  rw [← sub_eq_iff_eq_add', eq_div_iff hpos.ne', sub_mul, div_mul_cancel₀ _ hpos.ne']
  linarith

theorem natCast_mod_div_lt_one (n : ℕ) {d : ℕ} (hd : 0 < d) : ((n % d : ℕ) : ℚ) / d < 1 := by
  rw [div_lt_one (by exact_mod_cast hd)]
  exact_mod_cast Nat.mod_lt n hd

theorem natCast_div_lt_half_iff {r d : ℕ} (hd : 0 < d) : (r : ℚ) / d < 1 / 2 ↔ 2 * r < d := by
  rw [div_lt_div_iff₀ (by exact_mod_cast hd) two_pos, one_mul, mul_comm]
  exact_mod_cast Iff.rfl

theorem half_lt_natCast_div_iff {r d : ℕ} (hd : 0 < d) : 1 / 2 < (r : ℚ) / d ↔ d < 2 * r := by
  rw [div_lt_div_iff₀ two_pos (by exact_mod_cast hd), one_mul, mul_comm]
  exact_mod_cast Iff.rfl

theorem natCast_div_eq_half {r d : ℕ} (hd : 0 < d) (h : 2 * r = d) : (r : ℚ) / d = 1 / 2 :=
  le_antisymm (not_lt.1 (mt (half_lt_natCast_div_iff hd).1 (by omega)))
    (not_lt.1 (mt (natCast_div_lt_half_iff hd).1 (by omega)))

/-! ### Residual bits -/

/-- The mantissa and its residual bits are what is kept of `q`: the round bit is a half, and the
sticky bit says whether there is something behind. -/
structure Approximates (em : ExtendedMantissa) (q : ℚ) : Prop where
  nonneg : 0 ≤ q - em.mantissa - (if em.roundBit then 1 / 2 else 0)
  lt_half : q - em.mantissa - (if em.roundBit then 1 / 2 else 0) < 1 / 2
  sticky : em.stickyBit = false ↔ q - em.mantissa - (if em.roundBit then 1 / 2 else 0) = 0

namespace Approximates

variable {em : ExtendedMantissa} {q : ℚ}

theorem of_rest {m : ℕ} {round sticky : Bool} (rest : ℚ)
    (h : q = m + (if round then 1 / 2 else 0) + rest) (hnonneg : 0 ≤ rest) (hlt : rest < 1 / 2)
    (hsticky : sticky = false ↔ rest = 0) : Approximates ⟨m, round, sticky⟩ q := by
  have hrest : q - m - (if round then 1 / 2 else 0) = rest := by
    rw [h]
    ring
  exact ⟨hrest ▸ hnonneg, hrest ▸ hlt, hrest ▸ hsticky⟩

theorem bounds (h : Approximates em q) : em.mantissa ≤ q ∧ q < em.mantissa + 1 := by
  obtain ⟨m, r, s⟩ := em
  obtain ⟨hnonneg, hlt, -⟩ := h
  dsimp only at hnonneg hlt ⊢
  rcases r with _ | _ <;> simp only [Bool.false_eq_true, ↓reduceIte] at hnonneg hlt <;>
    constructor <;> linarith

theorem shiftRightOne (h : Approximates em q) : Approximates em.shiftRightOne (q / 2) := by
  obtain ⟨m, r, s⟩ := em
  obtain ⟨hnonneg, hlt, hsticky⟩ := h
  dsimp only at hnonneg hlt hsticky
  -- the bit that the mantissa loses is the new round bit
  have hm : q / 2 - (m / 2 : ℕ) - (if m % 2 != 0 then 1 / 2 else 0) = (q - m) / 2 := by
    have hdiv : (m : ℚ) = 2 * (m / 2 : ℕ) + (m % 2 : ℕ) := by
      exact_mod_cast (Nat.div_add_mod m 2).symm
    rcases Nat.mod_two_eq_zero_or_one m with hmod | hmod <;>
      simp only [hmod, Nat.cast_zero, Nat.cast_one] at hdiv ⊢ <;> simp <;> linarith
  constructor
  · show 0 ≤ q / 2 - (m / 2 : ℕ) - (if m % 2 != 0 then 1 / 2 else 0)
    rw [hm]
    rcases r with _ | _ <;> simp at hnonneg ⊢ <;> linarith
  · show q / 2 - (m / 2 : ℕ) - (if m % 2 != 0 then 1 / 2 else 0) < 1 / 2
    rw [hm]
    rcases r with _ | _ <;> simp at hlt ⊢ <;> linarith
  · show (r || s) = false ↔ q / 2 - (m / 2 : ℕ) - (if m % 2 != 0 then 1 / 2 else 0) = 0
    rw [hm, Bool.or_eq_false_iff, hsticky]
    rcases r with _ | _
    · simp
    · simp at hnonneg ⊢
      linarith

theorem shiftRight (h : Approximates em q) : ∀ n : ℕ, Approximates (em >>> n) (q / 2 ^ n)
  | 0 => by
    rw [pow_zero, div_one]
    exact h
  | n + 1 => by
    have hnext := (h.shiftRight n).shiftRightOne
    rwa [div_div, ← pow_succ] at hnext

theorem isRounded (h : Approximates em q) : IsRounded q em.roundedMantissa := by
  obtain ⟨m, r, s⟩ := em
  obtain ⟨hnonneg, hlt, hsticky⟩ := h
  dsimp only at hnonneg hlt hsticky
  rcases r with _ | _ <;>
    simp only [Bool.false_eq_true, ↓reduceIte, sub_zero] at hnonneg hlt hsticky
  · have hdown : IsRounded q m := .of_lt (by rwa [abs_of_nonneg hnonneg])
    rcases s with _ | _ <;> exact hdown
  · rcases s with _ | _
    · have hhalf : q - m = 1 / 2 := by linarith [hsticky.1 rfl]
      exact .of_half hhalf
    · have hpos : q - m - 1 / 2 ≠ 0 := fun hzero => absurd (hsticky.2 hzero) (by decide)
      have hup : |q - (m + 1 : ℕ)| < 1 / 2 := by
        have : 0 < q - m - 1 / 2 := lt_of_le_of_ne hnonneg hpos.symm
        push_cast
        rw [abs_lt]
        constructor <;> linarith
      exact .of_lt hup

end Approximates

/-! ### Rounding a mantissa -/

/-- `units * 2 ^ exponent` for at most `2 ^ 53` units. -/
def ofUnits (s : Sign) (units : ℕ) (exponent : ℤ) : UnpackedFloat :=
  if h : units = 0 then .zero s
  else if units < 2 ^ 53 then .finite s units exponent (Nat.pos_of_ne_zero h)
  else .finite s (2 ^ 52) (exponent + 1) (by decide)

/-- `q` is rounded to a multiple of a power of two, the unit in the last place of the numbers that
are as large as `q`. -/
structure RoundsTo (s : Sign) (q : ℚ) (u : UnpackedFloat) (units : ℕ) (exponent : ℤ) : Prop where
  isRounded : IsRounded (q / 2 ^ exponent) units
  eq_ofUnits : u = ofUnits s units exponent
  exponent_ge : -1074 ≤ exponent
  lt : q < 2 ^ (exponent + 53)
  ge : exponent = -1074 ∨ 2 ^ (exponent + 52) ≤ q

theorem targetExponent_eq (e : ℤ) : Format.binary64.targetExponent e = max (e - 53) (-1074) :=
  rfl

theorem shiftToTargetExponent_of_lt {n : ℕ} {t : ℤ} (hn : n < 2 ^ 53) (ht : -1074 ≤ t) :
    shiftToTargetExponent .binary64 n t .exact = (⟨n, false, false⟩, t) := by
  have hlog : n.log2 ≤ 52 := by
    rcases Nat.eq_zero_or_pos n with rfl | hpos
    · simp
    · exact Nat.lt_succ_iff.1 ((Nat.log2_lt hpos.ne').2 hn)
  have hshift : (Format.binary64.targetExponent (totalExponent n t) - t).toNat = 0 := by
    rw [targetExponent_eq, totalExponent]
    omega
  unfold shiftToTargetExponent shiftToExponent
  simp only [hshift, Nat.cast_zero, add_zero]
  rfl

theorem shiftToTargetExponent_two_pow {t : ℤ} (ht : -1074 ≤ t) :
    shiftToTargetExponent .binary64 (2 ^ 53) t .exact = (⟨2 ^ 52, false, false⟩, t + 1) := by
  have hshift : (Format.binary64.targetExponent (totalExponent (2 ^ 53) t) - t).toNat = 1 := by
    rw [targetExponent_eq, totalExponent, Nat.log2_two_pow]
    omega
  unfold shiftToTargetExponent shiftToExponent
  simp only [hshift, Nat.cast_one]
  rfl

theorem approximates_ofMantissaAndAccuracy_mantissa (m : ℕ) (a : Accuracy) :
    (ExtendedMantissa.ofMantissaAndAccuracy m a).mantissa = m := by
  rcases a with _ | _ | _ | _ <;> rfl

theorem lt_two_pow_of_log2 {m : ℕ} {e t : ℤ} {q : ℚ} (hlt : q < (m + 1) * 2 ^ e)
    (ht : m.log2 + e < t) : q < 2 ^ t := by
  have hm : ((m + 1 : ℕ) : ℚ) ≤ 2 ^ (m.log2 + 1) := by exact_mod_cast Nat.lt_log2_self
  push_cast at hm
  calc q < (m + 1) * 2 ^ e := hlt
    _ ≤ 2 ^ (m.log2 + 1) * 2 ^ e := by gcongr
    _ = 2 ^ ((m.log2 + 1 : ℕ) + e) := by rw [zpow_add₀ two_ne_zero, zpow_natCast]
    _ ≤ 2 ^ t := zpow_le_zpow_right₀ one_le_two (by push_cast; omega)

theorem two_pow_le_of_log2 {m : ℕ} {e t : ℤ} {q : ℚ} (hge : m * 2 ^ e ≤ q) (hm : m ≠ 0)
    (ht : t ≤ m.log2 + e) : 2 ^ t ≤ q := by
  have hlog : (2 : ℚ) ^ m.log2 ≤ m := by exact_mod_cast Nat.log2_self_le hm
  calc (2 : ℚ) ^ t ≤ 2 ^ (m.log2 + e) := zpow_le_zpow_right₀ one_le_two ht
    _ = 2 ^ m.log2 * 2 ^ e := by rw [zpow_add₀ two_ne_zero, zpow_natCast]
    _ ≤ m * 2 ^ e := by gcongr
    _ ≤ q := hge

/-- A number with at least as many digits as its unit in the last place asks for is rounded to a
multiple of that unit. -/
theorem roundsTo_roundWithAccuracy (s : Sign) {m : ℕ} {e : ℤ} {a : Accuracy} {q : ℚ}
    (hq : Approximates (.ofMantissaAndAccuracy m a) (q / 2 ^ e))
    (he : e ≤ max (m.log2 + e - 52) (-1074)) :
    ∃ units exponent, RoundsTo s q (roundWithAccuracy .binary64 s m e a) units exponent := by
  obtain ⟨t, ht⟩ : ∃ t, t = max (m.log2 + e - 52) (-1074) := ⟨_, rfl⟩
  rw [← ht] at he
  have hpow : (0 : ℚ) < 2 ^ e := by positivity
  obtain ⟨hge, hlt⟩ := hq.bounds
  rw [approximates_ofMantissaAndAccuracy_mantissa] at hge hlt
  rw [le_div_iff₀ hpow] at hge
  rw [div_lt_iff₀ hpow] at hlt
  have hbelow : q < 2 ^ (t + 53) := lt_two_pow_of_log2 hlt (by omega)
  have habove : t = -1074 ∨ 2 ^ (t + 52) ≤ q := by
    by_cases hmin : t = -1074
    · exact .inl hmin
    · have hm : m ≠ 0 := by
        rintro rfl
        simp only [Nat.log2_zero] at ht
        omega
      exact .inr (two_pow_le_of_log2 hge hm (by omega))
  obtain ⟨em, hem⟩ : ∃ em, em = ExtendedMantissa.ofMantissaAndAccuracy m a >>> (t - e).toNat :=
    ⟨_, rfl⟩
  have hrounded : IsRounded (q / 2 ^ t) em.roundedMantissa := by
    have hshift := hq.shiftRight (t - e).toNat
    rw [← hem, div_div, ← zpow_natCast, ← zpow_add₀ two_ne_zero] at hshift
    have hexp : e + ((t - e).toNat : ℤ) = t := by omega
    rw [hexp] at hshift
    exact hshift.isRounded
  refine ⟨em.roundedMantissa, t, hrounded, ?_, by omega, hbelow, habove⟩
  have hfirst : shiftToTargetExponent .binary64 m e a = (em, t) := by
    have htarget : Format.binary64.targetExponent (totalExponent m e) = t := by
      rw [targetExponent_eq, totalExponent]
      omega
    unfold shiftToTargetExponent shiftToExponent
    rw [htarget, hem]
    exact Prod.ext rfl (by dsimp only; omega)
  unfold roundWithAccuracy ofUnits
  rw [hfirst]
  dsimp only
  rcases (hrounded.le_two_pow hbelow).lt_or_eq with hsmall | hcarry
  · rw [shiftToTargetExponent_of_lt hsmall (by omega)]
    simp only [hsmall, if_true]
  · rw [hcarry, shiftToTargetExponent_two_pow (by omega)]
    rfl

/-! ### Quotients and products -/

theorem approximates_exact (m : ℕ) : Approximates (.ofMantissaAndAccuracy m .exact) m :=
  .of_rest 0 (by simp) le_rfl (by norm_num) (iff_of_true rfl rfl)

theorem approximates_quotient (n : ℕ) {d : ℕ} (hd : 0 < d) :
    Approximates (.ofMantissaAndAccuracy (n / d) (accuracyOfFraction (n % d) d)) (n / d) := by
  have hpos : (0 : ℚ) < d := by exact_mod_cast hd
  have hn := natCast_div_eq n hd
  have hone := natCast_mod_div_lt_one n hd
  generalize n % d = r at hn hone ⊢
  unfold accuracyOfFraction
  split
  · rename_i hzero
    exact .of_rest 0 (by simp [hn, hzero]) le_rfl (by norm_num) (iff_of_true rfl rfl)
  · rename_i hne
    have hsome : 0 < (r : ℚ) / d := div_pos (by exact_mod_cast Nat.pos_of_ne_zero hne) hpos
    rcases hcompare : compare (2 * r) d with _ | _ | _
    · have hlt := (natCast_div_lt_half_iff hd).2 (Nat.compare_eq_lt.1 hcompare)
      exact .of_rest (r / d) (by simpa using hn) hsome.le hlt (iff_of_false nofun hsome.ne')
    · have heq := natCast_div_eq_half hd (Nat.compare_eq_eq.1 hcompare)
      exact .of_rest 0 (by simp [hn, heq]) le_rfl (by norm_num) (iff_of_true rfl rfl)
    · have hgt := (half_lt_natCast_div_iff hd).2 (Nat.compare_eq_gt.1 hcompare)
      have hbehind : 0 < (r : ℚ) / d - 1 / 2 := by linarith
      refine .of_rest (r / d - 1 / 2) ?_ hbehind.le (by linarith)
        (iff_of_false nofun hbehind.ne')
      simp only [if_true, hn]
      ring

theorem log2_add_le_log2_mul {a : ℕ} (ha : 0 < a) (k : ℕ) : a.log2 + k ≤ (a * 2 ^ k).log2 := by
  rw [Nat.le_log2 (Nat.mul_pos ha (Nat.two_pow_pos k)).ne', Nat.pow_add]
  exact Nat.mul_le_mul_right _ (Nat.log2_self_le ha.ne')

/-- A quotient has at most one digit less than the difference of the digits. -/
theorem log2_sub_le_log2_div {a b : ℕ} (ha : 0 < a) (hb : 0 < b) :
    (a.log2 : ℤ) - b.log2 - 1 ≤ (a / b).log2 := by
  rcases le_or_gt a.log2 b.log2 with hle | hgt
  · omega
  · have hpow : 2 ^ (a.log2 - b.log2 - 1) ≤ a / b := by
      rw [Nat.le_div_iff_mul_le hb]
      calc 2 ^ (a.log2 - b.log2 - 1) * b
          ≤ 2 ^ (a.log2 - b.log2 - 1) * 2 ^ (b.log2 + 1) :=
            Nat.mul_le_mul_left _ Nat.lt_log2_self.le
        _ = 2 ^ a.log2 := by
            rw [← Nat.pow_add]
            congr 1
            omega
        _ ≤ a := Nat.log2_self_le ha.ne'
    have hpos : a / b ≠ 0 := by
      have := Nat.two_pow_pos (a.log2 - b.log2 - 1)
      omega
    have hlog := (Nat.le_log2 hpos).2 hpow
    omega

/-- Division is rounded correctly. -/
theorem roundsTo_div (s₁ s₂ : Sign) {m₁ m₂ : ℕ} (e₁ e₂ : ℤ) (h₁ : 0 < m₁) (h₂ : 0 < m₂) :
    ∃ units exponent, RoundsTo (s₁ / s₂) (m₁ * 2 ^ e₁ / (m₂ * 2 ^ e₂))
      (div .binary64 (.finite s₁ m₁ e₁ h₁) (.finite s₂ m₂ e₂ h₂)) units exponent := by
  obtain ⟨t, ht⟩ : ∃ t, t = min (e₁ - e₂) (Format.binary64.targetExponent
    (totalExponent m₁ e₁ - totalExponent m₂ e₂)) := ⟨_, rfl⟩
  obtain ⟨shift, hshift⟩ : ∃ shift, shift = (e₁ - e₂ - t).toNat := ⟨_, rfl⟩
  have hm : m₁ <<< shift = m₁ * 2 ^ shift := Nat.shiftLeft_eq m₁ shift
  have hdiv : div .binary64 (.finite s₁ m₁ e₁ h₁) (.finite s₂ m₂ e₂ h₂)
      = roundWithAccuracy .binary64 (s₁ / s₂) (m₁ * 2 ^ shift / m₂) t
        (accuracyOfFraction (m₁ * 2 ^ shift % m₂) m₂) := by
    rw [← hm, hshift, ht]
    rfl
  rw [hdiv]
  refine roundsTo_roundWithAccuracy _ ?_ ?_
  · have hvalue : (m₁ * 2 ^ e₁ / (m₂ * 2 ^ e₂) : ℚ) / 2 ^ t = (m₁ * 2 ^ shift : ℕ) / m₂ := by
      have hexp : e₁ = e₂ + t + shift := by omega
      rw [hexp, zpow_add₀ two_ne_zero, zpow_add₀ two_ne_zero, zpow_natCast]
      push_cast
      field_simp
    rw [hvalue]
    exact approximates_quotient _ h₂
  · have hshifted := log2_add_le_log2_mul h₁ shift
    have hquotient := log2_sub_le_log2_div (Nat.mul_pos h₁ (Nat.two_pow_pos shift)) h₂
    rw [targetExponent_eq, totalExponent, totalExponent] at ht
    omega

/-- A product of which one factor has all its digits is rounded correctly. -/
theorem roundsTo_mul (s₁ s₂ : Sign) {m₁ m₂ : ℕ} (e₁ e₂ : ℤ) (h₁ : 0 < m₁) (h₂ : 0 < m₂)
    (hm : 2 ^ 52 ≤ m₁) : ∃ units exponent, RoundsTo (s₁ * s₂) (m₁ * 2 ^ e₁ * (m₂ * 2 ^ e₂))
      (mul .binary64 (.finite s₁ m₁ e₁ h₁) (.finite s₂ m₂ e₂ h₂)) units exponent := by
  have hlog : 52 ≤ (m₁ * m₂).log2 :=
    (Nat.le_log2 (Nat.mul_pos h₁ h₂).ne').2 (hm.trans (Nat.le_mul_of_pos_right m₁ h₂))
  refine roundsTo_roundWithAccuracy _ ?_ (by omega)
  have hvalue : (m₁ * 2 ^ e₁ * (m₂ * 2 ^ e₂) : ℚ) / 2 ^ (e₁ + e₂) = (m₁ * m₂ : ℕ) := by
    rw [zpow_add₀ two_ne_zero]
    push_cast
    field_simp
  rw [hvalue]
  exact approximates_exact _

end ComputedTables.Decimal
