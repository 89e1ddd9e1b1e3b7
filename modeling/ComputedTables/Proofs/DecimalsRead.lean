import ComputedTables.Decimal.Literal
import ComputedTables.Proofs.NearestFloat

/-!
# Decimals are read as the nearest number

A decimal is made from its digits and a power of ten, by one exact division or multiplication where
both are small and in the model of binary numbers else; either way the result is the nearest number
(`isNearest_ofScientific`).  An exponent that is brought into range first is one that makes no
difference (`isNearest_of_clampPower`), so whatever the count of digits and the exponent, a decimal
is read as the number nearest to it (`isNearest_nearest`).
-/

namespace ComputedTables.Decimal

open Float.Model UnpackedFloat

/-! ### Powers of ten -/

theorem two_pow_le_ten_pow : (2 : ℚ) ^ (1200 : ℤ) ≤ 10 ^ (400 : ℤ) := by
  have hsplit : (2 : ℚ) ^ (1200 : ℤ) = ((2 : ℚ) ^ (3 : ℤ)) ^ (400 : ℤ) := by
    rw [← zpow_mul]
    rfl
  rw [hsplit]
  exact zpow_le_zpow_left₀ (by decide) (by norm_num) (by norm_num)

theorem overflowBound_le_of_large {m : ℕ} (hm : m ≠ 0) {e : ℤ} (he : 400 ≤ e) :
    overflowBound ≤ m * 10 ^ e := by
  have hone : (1 : ℚ) ≤ m := by exact_mod_cast Nat.one_le_iff_ne_zero.2 hm
  calc overflowBound ≤ 2 ^ (1024 : ℤ) := overflowBound_le_two_pow
    _ ≤ 2 ^ (1200 : ℤ) := zpow_le_zpow_right₀ one_le_two (by decide)
    _ ≤ 10 ^ (400 : ℤ) := two_pow_le_ten_pow
    _ ≤ 10 ^ e := zpow_le_zpow_right₀ (by norm_num) he
    _ ≤ m * 10 ^ e := le_mul_of_one_le_left (by positivity) hone

theorem isTiny_of_small {m d : ℕ} (hm : m < 10 ^ d) {e : ℤ} (he : e ≤ -(d + 400 : ℕ)) :
    IsTiny (m * 10 ^ e) := by
  have hten : (1 : ℚ) ≤ 10 := by norm_num
  have hlt : (m : ℚ) < 10 ^ (d : ℤ) := by exact_mod_cast hm
  refine ⟨by positivity, ?_⟩
  calc (m : ℚ) * 10 ^ e < 10 ^ (d : ℤ) * 10 ^ e := by gcongr
    _ = 10 ^ (d + e) := (zpow_add₀ (by norm_num) _ _).symm
    _ ≤ 10 ^ (-400 : ℤ) := zpow_le_zpow_right₀ hten (by push_cast at he; omega)
    _ ≤ 2 ^ (-1200 : ℤ) := by
      rw [zpow_neg, zpow_neg]
      exact inv_anti₀ (by positivity) two_pow_le_ten_pow
    _ ≤ 2 ^ (-1075 : ℤ) := zpow_le_zpow_right₀ one_le_two (by decide)

/-- A decimal in the model of floats is the nearest number. -/
theorem isNearest_ofScientific_model (m : ℕ) (e : ℤ) :
    IsNearest false (m * 10 ^ e) (.ofModel (Float.Model.ofScientific m e)) := by
  unfold Float.Model.ofScientific UnpackedFloat.ofScientific
  have hlog : m < 10 ^ (m.log2 + 1) :=
    Nat.lt_log2_self.trans_le (Nat.pow_le_pow_left (by decide) _)
  split
  · rename_i hm
    rw [hm, Nat.cast_zero, zero_mul]
    exact isNearest_zero isTiny_zero .positive
  · rename_i hm
    split
    · rename_i hlarge
      have hbig : (2048 : ℤ) < e := hlarge
      exact isNearest_infinity (overflowBound_le_of_large hm (by omega)) .positive
    · split
      · rename_i hsmall
        have hlittle : e < -(2048 + (m.log2 : ℤ)) := hsmall
        exact isNearest_zero (isTiny_of_small hlog (by push_cast; omega)) .positive
      · have hpos : 0 < m := Nat.pos_of_ne_zero hm
        split
        · rename_i hnonneg
          obtain ⟨k, rfl⟩ := Int.eq_ofNat_of_zero_le hnonneg
          have hshift : m <<< 53 = m * 2 ^ 53 := Nat.shiftLeft_eq m 53
          obtain ⟨units, t, h⟩ := roundsTo_mul .positive .positive (-53) 0
            (hshift ▸ Nat.mul_pos hpos (by decide)) (Nat.pow_pos (by decide) : 0 < 10 ^ k)
            (hshift ▸ le_mul_of_one_le_of_le hpos (by decide))
          have hvalue : ((m <<< 53 : ℕ) : ℚ) * 2 ^ (-53 : ℤ) * ((10 ^ k : ℕ) * 2 ^ (0 : ℤ))
              = m * 10 ^ (k : ℤ) := by
            rw [hshift, zpow_neg, zpow_zero, mul_one, zpow_natCast]
            push_cast
            rw [mul_assoc (m : ℚ), mul_inv_cancel₀ (by positivity), mul_one]
          rw [hvalue] at h
          exact h.isNearest
        · rename_i hneg
          obtain ⟨k, rfl⟩ : ∃ k : ℕ, e = -k := ⟨(-e).toNat, by omega⟩
          obtain ⟨units, t, h⟩ := roundsTo_div .positive .positive 0 0 hpos
            (Nat.pow_pos (by decide) : 0 < 10 ^ (- -(k : ℤ)).toNat)
          have hvalue : (m : ℚ) * 2 ^ (0 : ℤ) / ((10 ^ (- -(k : ℤ)).toNat : ℕ) * 2 ^ (0 : ℤ))
              = m * 10 ^ (-(k : ℤ)) := by
            rw [neg_neg, Int.toNat_natCast, zpow_neg, zpow_natCast, zpow_zero, mul_one, mul_one,
              div_eq_mul_inv]
            push_cast
            rfl
          rw [hvalue] at h
          exact h.isNearest

/-! ### Small digits and small powers -/

theorem roundWithAccuracy_exact_of_lt (s : Sign) {n : ℕ} {t : ℤ} (hpos : 0 < n) (hn : n < 2 ^ 53)
    (ht : -1074 ≤ t) : roundWithAccuracy .binary64 s n t .exact = .finite s n t hpos := by
  have hsame : (ExtendedMantissa.mk n false false).roundedMantissa = n := rfl
  unfold roundWithAccuracy
  rw [shiftToTargetExponent_of_lt hn ht]
  dsimp only
  rw [hsame, shiftToTargetExponent_of_lt hn ht, dif_neg hpos.ne']

theorem unpack_toFloat {m : ℕ} (hpos : 0 < m) (hm : m < 2 ^ 53) : ∃ m' e' h,
    m.toUInt64.toFloat.toModel.unpack = .finite .positive m' e' h ∧ 2 ^ 52 ≤ m' ∧
      (m' : ℚ) * 2 ^ e' = m := by
  have hlog : m.log2 ≤ 52 := Nat.lt_succ_iff.1 ((Nat.log2_lt hpos.ne').2 hm)
  obtain ⟨shift, hshift⟩ : ∃ shift, shift = 52 - m.log2 := ⟨_, rfl⟩
  have hge : 2 ^ 52 ≤ m * 2 ^ shift := by
    calc 2 ^ 52 = 2 ^ m.log2 * 2 ^ shift := by
          rw [← Nat.pow_add]
          congr 1
          omega
      _ ≤ m * 2 ^ shift := Nat.mul_le_mul_right _ (Nat.log2_self_le hpos.ne')
  have hlt : m * 2 ^ shift < 2 ^ 53 := by
    calc m * 2 ^ shift < 2 ^ (m.log2 + 1) * 2 ^ shift := by
          gcongr
          exact Nat.lt_log2_self
      _ = 2 ^ 53 := by
          rw [← Nat.pow_add]
          congr 1
          omega
  have hround : UnpackedFloat.ofUInt64 .binary64 m.toUInt64
      = .finite .positive (m * 2 ^ shift) (-shift) (by omega) := by
    have htoNat : m.toUInt64.toNat = m := by
      rw [Nat.toUInt64, UInt64.toNat_ofNat']
      omega
    have htarget : (0 - Format.binary64.targetExponent (totalExponent m 0)).toNat = shift := by
      rw [targetExponent_eq, totalExponent]
      omega
    show UnpackedFloat.normalize .binary64 (m.toUInt64.toNat : ℤ) 0 .positive = _
    rw [htoNat]
    unfold UnpackedFloat.normalize
    have hcompare : compare (m : ℤ) 0 = .gt := compare_gt_iff_gt.2 (by omega)
    rw [hcompare]
    dsimp only
    unfold UnpackedFloat.round decreaseExponent
    rw [Int.toNat_natCast]
    dsimp only
    rw [htarget, Nat.shiftLeft_eq, zero_sub]
    exact roundWithAccuracy_exact_of_lt .positive (by omega) hlt (by omega)
  refine ⟨m * 2 ^ shift, -shift, by omega, ?_, hge, ?_⟩
  · show (Float.Model.pack (UnpackedFloat.ofUInt64 .binary64 m.toUInt64)).unpack = _
    rw [hround, unpack_pack_finite _ _ ⟨hlt, by omega, .inl hge⟩, if_neg (by omega)]
  · push_cast
    rw [mul_assoc, zpow_neg, zpow_natCast, mul_inv_cancel₀ (by positivity), mul_one]

/-- Whether a number is the natural number `n`, which is not zero. -/
def Binary.isNat (n : ℕ) : Binary → Bool
  | ⟨false, .finite m e⟩ => decide (0 < m ∧ m * 2 ^ e.toNat = n * 2 ^ (-e).toNat)
  | _ => false

theorem Binary.eq_of_isNat {b : Binary} {n : ℕ} (h : b.isNat n = true) :
    ∃ m e, b = ⟨false, .finite m e⟩ ∧ 0 < m ∧ (m : ℚ) * 2 ^ e = n := by
  unfold isNat at h
  split at h
  · rename_i m e
    obtain ⟨hpos, heq⟩ := of_decide_eq_true h
    refine ⟨m, e, rfl, hpos, ?_⟩
    have hcast : (m : ℚ) * 2 ^ e.toNat = n * 2 ^ (-e).toNat := by exact_mod_cast heq
    have hexp : e = e.toNat - (-e).toNat := by omega
    rw [hexp, zpow_sub₀ two_ne_zero, zpow_natCast, zpow_natCast, ← mul_div_assoc,
      div_eq_iff (by positivity)]
    exact hcast
  · cases h

/-- The table holds the powers of ten. -/
theorem isNat_powerOfTen : ∀ e : Fin Float.exactlyRepresentablePowersOfTen.size,
    (Binary.ofFloat Float.exactlyRepresentablePowersOfTen[e]).isNat (10 ^ (e : ℕ)) = true := by
  decide +kernel

theorem unpack_of_ofFloat {x : Float} {m : ℕ} {e : ℤ} (h : Binary.ofFloat x = ⟨false, .finite m e⟩)
    (hm : 0 < m) : x.toModel.unpack = .finite .positive m e hm := by
  rw [ofFloat_eq_ofUnpacked] at h
  have hmagnitude := congrArg Binary.magnitude h
  rcases hu : x.toModel.unpack with s | _ | s | ⟨s, m', e', hm'⟩ <;> rw [hu] at h hmagnitude
  · cases hmagnitude
  · cases hmagnitude
  · cases hmagnitude
    exact absurd hm (lt_irrefl 0)
  · cases s
    · cases h
    · cases h
      rfl

theorem unpack_powerOfTen (e : ℕ) (he : e < Float.exactlyRepresentablePowersOfTen.size) :
    ∃ m' e' h, Float.exactlyRepresentablePowersOfTen[e].toModel.unpack
      = .finite .positive m' e' h ∧ (m' : ℚ) * 2 ^ e' = 10 ^ e := by
  obtain ⟨m', e', hbinary, hpos, hvalue⟩ := Binary.eq_of_isNat (isNat_powerOfTen ⟨e, he⟩)
  exact ⟨m', e', hpos, unpack_of_ofFloat hbinary hpos, by exact_mod_cast hvalue⟩

theorem isNearest_div_powerOfTen {m e : ℕ} (hm : m < 2 ^ 53)
    (he : e < Float.exactlyRepresentablePowersOfTen.size) :
    IsNearest false (m / 10 ^ e)
      (m.toUInt64.toFloat / Float.exactlyRepresentablePowersOfTen[e]) := by
  obtain ⟨m₂, e₂, hpos₂, hunpack₂, hvalue₂⟩ := unpack_powerOfTen e he
  show IsNearest false _ (.ofModel (.pack (UnpackedFloat.div .binary64 _ _)))
  rw [hunpack₂]
  rcases Nat.eq_zero_or_pos m with rfl | hpos
  · rw [Nat.cast_zero, zero_div]
    exact isNearest_zero isTiny_zero .positive
  · obtain ⟨m₁, e₁, hpos₁, hunpack₁, -, hvalue₁⟩ := unpack_toFloat hpos hm
    obtain ⟨units, t, h⟩ := roundsTo_div .positive .positive e₁ e₂ hpos₁ hpos₂
    rw [hvalue₁, hvalue₂] at h
    rw [hunpack₁]
    exact h.isNearest

theorem isNearest_mul_powerOfTen {m e : ℕ} (hm : m < 2 ^ 53)
    (he : e < Float.exactlyRepresentablePowersOfTen.size) :
    IsNearest false (m * 10 ^ e)
      (m.toUInt64.toFloat * Float.exactlyRepresentablePowersOfTen[e]) := by
  obtain ⟨m₂, e₂, hpos₂, hunpack₂, hvalue₂⟩ := unpack_powerOfTen e he
  show IsNearest false _ (.ofModel (.pack (UnpackedFloat.mul .binary64 _ _)))
  rw [hunpack₂]
  rcases Nat.eq_zero_or_pos m with rfl | hpos
  · rw [Nat.cast_zero, zero_mul]
    exact isNearest_zero isTiny_zero .positive
  · obtain ⟨m₁, e₁, hpos₁, hunpack₁, hge, hvalue₁⟩ := unpack_toFloat hpos hm
    obtain ⟨units, t, h⟩ := roundsTo_mul .positive .positive e₁ e₂ hpos₁ hpos₂ hge
    rw [hvalue₁, hvalue₂] at h
    rw [hunpack₁]
    exact h.isNearest

/-- A decimal is read as the nearest number. -/
theorem isNearest_ofScientific (m : ℕ) (s : Bool) (e : ℕ) :
    IsNearest false (m * 10 ^ (if s then -e else e : ℤ)) (Float.ofScientific m s e) := by
  unfold Float.ofScientific
  by_cases hfast : m < 2 ^ 53 ∧ e ≤ 22
  · have hsize : e < Float.exactlyRepresentablePowersOfTen.size := Nat.lt_succ_of_le hfast.2
    rw [dif_pos hfast]
    cases s
    · exact isNearest_mul_powerOfTen hfast.1 hsize
    · have h := isNearest_div_powerOfTen hfast.1 hsize
      rwa [div_eq_mul_inv, ← zpow_natCast, ← zpow_neg] at h
  · rw [dif_neg hfast]
    cases s
    · exact isNearest_ofScientific_model m e
    · have h := isNearest_ofScientific_model m (Int.negOfNat e)
      rwa [Int.negOfNat_eq] at h

/-! ### Signs -/

theorem ofFloat_neg {x : Float} (h : (Binary.ofFloat x).magnitude ≠ .nan) :
    Binary.ofFloat (-x) = ⟨!(Binary.ofFloat x).negative, (Binary.ofFloat x).magnitude⟩ := by
  have hsign : ∀ s : Sign, (-s == .negative) = !(s == .negative) := by decide
  have hneg : (-x).toModel.unpack = (Float.Model.pack x.toModel.unpack.neg).unpack := rfl
  have hcanonical := fun m e => isCanonical_of_ofFloat (x := x) (m := m) (e := e)
  rw [ofFloat_eq_ofUnpacked] at h hcanonical
  rw [ofFloat_eq_ofUnpacked, ofFloat_eq_ofUnpacked, hneg]
  rcases hu : x.toModel.unpack with s | _ | s | ⟨s, m, e, hpos⟩ <;> rw [hu] at h hcanonical
  · rw [UnpackedFloat.neg, unpack_pack_infinity, Binary.ofUnpacked, hsign]
    rfl
  · exact absurd rfl h
  · rw [UnpackedFloat.neg, unpack_pack_zero, Binary.ofUnpacked, hsign]
    rfl
  · obtain ⟨hm, he⟩ := hcanonical m e rfl
    rw [UnpackedFloat.neg, unpack_pack_finite _ _ hm, if_neg (by omega), Binary.ofUnpacked, hsign]
    rfl

theorem IsNearest.neg {negative : Bool} {q : ℚ} {x : Float} (h : IsNearest negative q x) :
    IsNearest (!negative) q (-x) := by
  have hnan : (Binary.ofFloat x).magnitude ≠ .nan := fun hnan => by
    have := h.magnitude
    rwa [hnan] at this
  have hneg := ofFloat_neg hnan
  exact ⟨by rw [hneg, h.negative], by rw [hneg]; exact h.magnitude⟩

/-! ### Digits -/

theorem toNat_le_of_isDigit {c : Char} (h : c.isDigit = true) : c.toNat - '0'.toNat ≤ 9 := by
  have hle : c.toNat ≤ 57 := by
    simp only [Char.isDigit, Bool.and_eq_true, decide_eq_true_eq] at h
    exact h.2
  have hzero : '0'.toNat = 48 := rfl
  omega

theorem foldl_digits_lt : ∀ (digits : List Char) (n : ℕ), (∀ c ∈ digits, c.isDigit = true) →
    digits.foldl (fun n c => 10 * n + (c.toNat - '0'.toNat)) n < (n + 1) * 10 ^ digits.length
  | [], n, _ => by simp
  | c :: digits, n, h => by
    obtain ⟨hc, hdigits⟩ := List.forall_mem_cons.1 h
    have ih := foldl_digits_lt digits (10 * n + (c.toNat - '0'.toNat)) hdigits
    have hdigit := toNat_le_of_isDigit hc
    calc _ < (10 * n + (c.toNat - '0'.toNat) + 1) * 10 ^ digits.length := ih
      _ ≤ ((n + 1) * 10) * 10 ^ digits.length := Nat.mul_le_mul_right _ (by omega)
      _ = (n + 1) * 10 ^ (digits.length + 1) := by ring

theorem ofDigits_lt {digits : List Char} (h : ∀ c ∈ digits, c.isDigit = true) :
    ofDigits digits < 10 ^ digits.length := by
  have h := foldl_digits_lt digits 0 h
  rwa [zero_add, one_mul] at h

/-- What is left out where an exponent is brought into range makes no difference. -/
theorem isNearest_of_clampPower {m d : ℕ} (hm : m < 10 ^ d) {power : ℤ} {negative : Bool}
    {x : Float} (h : IsNearest negative (m * 10 ^ clampPower d power) x) :
    IsNearest negative (m * 10 ^ power) x := by
  have hclamp : clampPower d power = max (-((d + 400 : ℕ) : ℤ)) (min 400 power) := rfl
  by_cases hzero : m = 0
  · subst hzero
    rwa [Nat.cast_zero, zero_mul] at h ⊢
  rcases lt_or_ge 400 power with hlarge | hnotLarge
  · exact h.of_overflowBound_le (overflowBound_le_of_large hzero (by omega))
      (overflowBound_le_of_large hzero hlarge.le)
  rcases lt_or_ge power (-((d + 400 : ℕ) : ℤ)) with hsmall | hnotSmall
  · exact (isTiny_of_small hm (by omega)).isNearest (isTiny_of_small hm hsmall.le) h
  · have hsame : clampPower d power = power := by omega
    rwa [hsame] at h

/-- The size that digits before and after a point write, times a power of ten. -/
def decimalSize (whole fraction : List Char) (exponent : ℤ) : ℚ :=
  ofDigits (whole ++ fraction) * 10 ^ (exponent - fraction.length)

theorem isNearest_nearest (negative : Bool) {whole fraction : List Char}
    (hwhole : ∀ c ∈ whole, c.isDigit = true) (hfraction : ∀ c ∈ fraction, c.isDigit = true)
    (exponent : ℤ) : IsNearest negative (decimalSize whole fraction exponent)
      (nearest negative whole fraction exponent) := by
  obtain ⟨digits, hd⟩ : ∃ digits, digits = whole ++ fraction := ⟨_, rfl⟩
  obtain ⟨power, hp⟩ : ∃ power, power = clampPower digits.length (exponent - fraction.length) :=
    ⟨_, rfl⟩
  have hdigits : ∀ c ∈ digits, c.isDigit = true := by
    rw [hd]
    exact List.forall_mem_append.2 ⟨hwhole, hfraction⟩
  have hsize := isNearest_ofScientific (ofDigits digits) (decide (power < 0)) power.natAbs
  have hpower : (if decide (power < 0) then -power.natAbs else power.natAbs : ℤ) = power := by
    simp only [decide_eq_true_eq]
    split <;> omega
  rw [hpower, hp] at hsize
  have hclamped := isNearest_of_clampPower (ofDigits_lt hdigits) hsize
  rw [decimalSize, ← hd]
  unfold nearest
  dsimp only
  rw [← hd]
  cases negative
  · exact hclamped
  · exact hclamped.neg

end ComputedTables.Decimal
