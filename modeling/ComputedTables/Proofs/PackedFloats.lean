import Mathlib
import ComputedTables.Decimal.Binary

/-!
# Taking packed numbers apart

A binary64 number is packed in 64 bits.  Reading its sign and size from the bits is unpacking it
(`ofFloat_eq_ofUnpacked`), and a number that is packed from a mantissa of full length is unpacked as
it was, unless its exponent is out of range (`unpack_pack_finite`).  Since unpacking loses nothing,
a number is determined by its sign and its size (`Binary.ofFloat_injective`).
-/

namespace ComputedTables.Decimal

open Float.Model UnpackedFloat

/-- The mantissas and exponents of finite numbers: no more than fifty-three digits, and no fewer
unless the exponent is the least one. -/
structure IsCanonical (mantissa : ℕ) (exponent : ℤ) : Prop where
  lt : mantissa < 2 ^ 53
  exponent_ge : -1074 ≤ exponent
  normal : 2 ^ 52 ≤ mantissa ∨ exponent = -1074

theorem toNat_unpackExponent (b : BitVec 64) :
    (@unpackExponent .binary64 b).toNat = b.toNat / 2 ^ 52 % 2 ^ 11 := by
  rw [unpackExponent_def, BitVec.extractLsb'_toNat, Nat.shiftRight_eq_div_pow]

theorem toNat_unpackMantissa (b : BitVec 64) :
    (@unpackMantissa .binary64 b).toNat = b.toNat % 2 ^ 52 := by
  rw [unpackMantissa_def, BitVec.extractLsb'_toNat, Nat.shiftRight_eq_div_pow, pow_zero,
    Nat.div_one]

theorem toNat_unpackSign (b : BitVec 64) :
    (@unpackSign .binary64 b).toNat = b.toNat / 2 ^ 63 := by
  rw [unpackSign_def, BitVec.extractLsb'_toNat, Nat.shiftRight_eq_div_pow]
  have := b.isLt
  show b.toNat / 2 ^ 63 % 2 = _
  omega

/-- The sign and the size of an unpacked number. -/
def Binary.ofUnpacked : UnpackedFloat → Binary
  | .notANumber => ⟨false, .nan⟩
  | .infinity s => ⟨s == .negative, .infinite⟩
  | .zero s => ⟨s == .negative, .finite 0 (-1074)⟩
  | .finite s m e _ => ⟨s == .negative, .finite m e⟩

theorem ofBitVec_unpackSign (b : BitVec 64) :
    (Sign.ofBitVec (@unpackSign .binary64 b) == .negative) = (b.toNat / 2 ^ 63 == 1) := by
  have hsign := toNat_unpackSign b
  have hone : ∀ v : BitVec 1, (Sign.ofBitVec v == .negative) = (v.toNat == 1) := by decide
  rw [hone, hsign]

theorem exponentBias_binary64 : (Format.binary64.exponentBias : ℤ) = 1023 := rfl

theorem ofFloat_eq_ofUnpacked (x : Float) : Binary.ofFloat x = .ofUnpacked x.toModel.unpack := by
  obtain ⟨⟨⟨b⟩, hvalid⟩⟩ := x
  have hexponent := toNat_unpackExponent b
  have hmantissa := toNat_unpackMantissa b
  have hsign := ofBitVec_unpackSign b
  have hmantissaLt := (@unpackMantissa .binary64 b).isLt
  have hfull : @unpackExponent .binary64 b = -1#11 ↔ b.toNat / 2 ^ 52 % 2 ^ 11 = 2047 := by
    rw [← hexponent]
    exact BitVec.toNat_inj.symm
  have hzero : @unpackExponent .binary64 b = 0#11 ↔ b.toNat / 2 ^ 52 % 2 ^ 11 = 0 := by
    rw [← hexponent]
    exact BitVec.toNat_inj.symm
  have hnone : @unpackMantissa .binary64 b = 0#52 ↔ b.toNat % 2 ^ 52 = 0 := by
    rw [← hmantissa]
    exact BitVec.toNat_inj.symm
  unfold Binary.ofFloat Float.Model.unpack UnpackedFloat.unpack
  show Binary.mk (b.toNat / 2 ^ 63 == 1) (if b.toNat / 2 ^ 52 % 2 ^ 11 = 2047 then
      if b.toNat % 2 ^ 52 = 0 then .infinite else .nan
      else if b.toNat / 2 ^ 52 % 2 ^ 11 = 0 then .finite (b.toNat % 2 ^ 52) (-1074)
      else .finite (2 ^ 52 + b.toNat % 2 ^ 52) ((b.toNat / 2 ^ 52 % 2 ^ 11 : ℕ) - 1075)) = _
  simp only [hfull, hzero, hnone]
  split
  · rename_i hexp
    split
    · rw [Binary.ofUnpacked, hsign]
    · rename_i hmant
      -- there is one such number only, and it has no sign
      have hnan : b = packedNaN .binary64 := hvalid.eq_packedNaN (hfull.2 hexp) (mt hnone.1 hmant)
      have hpositive : (b.toNat / 2 ^ 63 == 1) = false := by
        rw [hnan]
        rfl
      rw [Binary.ofUnpacked, hpositive]
  · split
    · rename_i hexp
      split
      · rename_i hmant
        rw [Binary.ofUnpacked, hsign, hmant]
      · rw [Binary.ofUnpacked, hsign, hmantissa, hexponent, hexp, exponentBias_binary64]
        rfl
    · have happend : (1#1 ++ @unpackMantissa .binary64 b).toNat
          = 2 ^ 52 + b.toNat % 2 ^ 52 := by
        rw [BitVec.toNat_append, ← Nat.shiftLeft_add_eq_or_of_lt hmantissaLt, hmantissa]
        rfl
      rw [Binary.ofUnpacked, hsign, happend, hexponent, exponentBias_binary64]
      rfl

theorem unpack_pack_zero (s : Sign) : (Float.Model.pack (.zero s)).unpack = .zero s := by
  cases s <;> rfl

theorem unpack_pack_infinity (s : Sign) :
    (Float.Model.pack (.infinity s)).unpack = .infinity s := by
  cases s <;> rfl

theorem toNat_ofNat_mantissa {m : ℕ} (hm : m < 2 ^ 53) :
    (BitVec.ofNat 52 m).toNat = if m < 2 ^ 52 then m else m - 2 ^ 52 := by
  rw [BitVec.toNat_ofNat]
  split <;> omega

theorem unpack_packComponents_normal (s : Sign) {m : ℕ} {e : ℤ} (hpos : 0 < m) (hge : 2 ^ 52 ≤ m)
    (hlt : m < 2 ^ 53) (he : -1074 ≤ e) (hsmall : e ≤ 971) :
    UnpackedFloat.unpack .binary64 (packComponents .binary64 s (BitVec.ofNat 11 (e + 1075).toNat)
      (BitVec.ofNat 52 m)) = .finite s m e hpos := by
  have hexp : (BitVec.ofNat 11 (e + 1075).toNat).toNat = (e + 1075).toNat := by
    rw [BitVec.toNat_ofNat]
    omega
  have hfull : BitVec.ofNat 11 (e + 1075).toNat ≠ -1#11 := fun h => by
    have := hexp.symm.trans (congrArg BitVec.toNat h)
    rw [show (-1#11).toNat = 2047 from rfl] at this
    omega
  have hzero : BitVec.ofNat 11 (e + 1075).toNat ≠ 0#11 := fun h => by
    have := hexp.symm.trans (congrArg BitVec.toNat h)
    rw [show (0#11).toNat = 0 from rfl] at this
    omega
  have happend : (1#1 ++ BitVec.ofNat 52 m).toNat = m := by
    rw [BitVec.toNat_append, ← Nat.shiftLeft_add_eq_or_of_lt (BitVec.ofNat 52 m).isLt,
      toNat_ofNat_mantissa hlt, if_neg (by omega), show (1#1).toNat <<< 52 = 2 ^ 52 from rfl]
    omega
  unfold UnpackedFloat.unpack
  simp only [unpackMantissa_packComponents, unpackExponent_packComponents,
    unpackSign_packComponents, Sign.ofBitVec_toBitVec, if_neg hfull, if_neg hzero, happend, hexp,
    exponentBias_binary64]
  congr 1
  omega

theorem unpack_packComponents_subnormal (s : Sign) {m : ℕ} (hpos : 0 < m) (hm : m < 2 ^ 52) :
    UnpackedFloat.unpack .binary64 (packComponents .binary64 s 0#11 (BitVec.ofNat 52 m))
      = .finite s m (-1074) hpos := by
  have hmant : (BitVec.ofNat 52 m).toNat = m := by
    rw [toNat_ofNat_mantissa (by omega), if_pos hm]
  have hne : BitVec.ofNat 52 m ≠ 0#52 := fun h => by
    have := hmant.symm.trans (congrArg BitVec.toNat h)
    rw [show (0#52).toNat = 0 from rfl] at this
    omega
  unfold UnpackedFloat.unpack
  simp only [unpackMantissa_packComponents, unpackExponent_packComponents,
    unpackSign_packComponents, Sign.ofBitVec_toBitVec, dif_neg hne, hmant]
  rfl

/-- What is finite with an exponent that is too large becomes infinite. -/
theorem unpack_pack_finite (s : Sign) {m : ℕ} {e : ℤ} (hpos : 0 < m) (h : IsCanonical m e) :
    (Float.Model.pack (.finite s m e hpos)).unpack
      = if 972 ≤ e then .infinity s else .finite s m e hpos := by
  obtain ⟨hlt, hge, hnormal⟩ := h
  have hbias : (e + (Format.binary64.exponentBias : ℕ) + (52 : ℕ)).toNat = (e + 1075).toNat := by
    rw [exponentBias_binary64]
    congr 1
    omega
  show UnpackedFloat.unpack .binary64 (UnpackedFloat.pack .binary64 (.finite s m e hpos)) = _
  have hpack : UnpackedFloat.pack .binary64 (.finite s m e hpos)
      = if 2 ^ 11 ≤ (e + 1075).toNat + 1 then packedInfinity .binary64 s
        else if m.log2 + 1 = 53 then
          packComponents .binary64 s (BitVec.ofNat 11 (e + 1075).toNat) (BitVec.ofNat 52 m)
        else packComponents .binary64 s 0#11 (BitVec.ofNat 52 m) := by
    rw [← hbias]
    rfl
  rw [hpack]
  by_cases hlarge : 972 ≤ e
  · rw [if_pos hlarge, if_pos (by omega)]
    cases s <;> rfl
  · rw [if_neg hlarge, if_neg (by omega)]
    split
    · rename_i hbits
      have hm : 2 ^ 52 ≤ m := (Nat.le_log2 hpos.ne').1 (by omega)
      exact unpack_packComponents_normal s hpos hm hlt (by omega) (by omega)
    · rename_i hbits
      have h53 := (Nat.log2_lt hpos.ne').2 hlt
      have hm : m < 2 ^ 52 := (Nat.log2_lt hpos.ne').1 (by omega)
      obtain rfl : e = -1074 := hnormal.resolve_left (by omega)
      exact unpack_packComponents_subnormal s hpos hm

theorem isCanonical_of_ofFloat {x : Float} {m : ℕ} {e : ℤ}
    (h : (Binary.ofFloat x).magnitude = .finite m e) : IsCanonical m e ∧ e ≤ 971 := by
  unfold Binary.ofFloat at h
  dsimp only at h
  have hfraction : x.toBits.toNat % Nat.pow 2 52 < 2 ^ 52 := Nat.mod_lt _ (by decide)
  have hexponent : x.toBits.toNat / Nat.pow 2 52 % Nat.pow 2 11 < 2 ^ 11 :=
    Nat.mod_lt _ (by decide)
  split at h
  · split at h <;> cases h
  · split at h
    · cases h
      exact ⟨⟨by omega, le_rfl, .inr rfl⟩, by omega⟩
    · cases h
      have hpow : Nat.pow 2 52 = 2 ^ 52 := rfl
      exact ⟨⟨by omega, by omega, .inl (Nat.le_add_right _ _)⟩, by omega⟩

/-! ### One number for each size and sign -/

theorem Binary.ofUnpacked_injective : Function.Injective Binary.ofUnpacked := by
  have hsign : ∀ s s' : Sign, (s == .negative) = (s' == .negative) → s = s' := by
    intro s s' h
    cases s <;> cases s' <;> first | rfl | cases h
  intro u v h
  have hnegative := congrArg Binary.negative h
  have hmagnitude := congrArg Binary.magnitude h
  rcases u with s | _ | s | ⟨s, m, e, hm⟩ <;> rcases v with s' | _ | s' | ⟨s', m', e', hm'⟩ <;>
    try cases hmagnitude
  · rw [hsign s s' hnegative]
  · rfl
  · rw [hsign s s' hnegative]
  · exact absurd hm' (lt_irrefl 0)
  · exact absurd hm (lt_irrefl 0)
  · rw [hsign s s' hnegative]

theorem Binary.ofFloat_injective : Function.Injective Binary.ofFloat := by
  intro x y h
  rw [ofFloat_eq_ofUnpacked, ofFloat_eq_ofUnpacked] at h
  have hunpack := Binary.ofUnpacked_injective h
  have hbits := (unpack_inj_of_valid x.toModel.valid y.toModel.valid).1 hunpack
  exact Float.toBits_inj.1 (UInt64.toBitVec_inj.1 hbits)

theorem exists_float_of_isCanonical {m : ℕ} {e : ℤ} (hpos : 0 < m) (h : IsCanonical m e)
    (he : e ≤ 971) : ∃ x, (Binary.ofFloat x).magnitude = .finite m e := by
  refine ⟨.ofModel (.pack (.finite .positive m e hpos)), ?_⟩
  rw [ofFloat_eq_ofUnpacked, unpack_pack_finite _ _ h, if_neg (by omega)]
  rfl

namespace IsCanonical

variable {m m' : ℕ} {e e' : ℤ}

/-- A greater number has no lesser exponent. -/
theorem exponent_le_of_le (h : IsCanonical m e) (h' : IsCanonical m' e')
    (hle : (m : ℚ) * 2 ^ e ≤ m' * 2 ^ e') : e ≤ e' := by
  by_contra hlt
  have hm : (2 : ℚ) ^ (52 : ℤ) ≤ m := by
    have := h'.exponent_ge
    exact_mod_cast h.normal.resolve_right (by omega)
  have hm' : (m' : ℚ) < 2 ^ (53 : ℤ) := by exact_mod_cast h'.lt
  refine absurd hle (not_le.2 ?_)
  calc (m' : ℚ) * 2 ^ e' < 2 ^ (53 : ℤ) * 2 ^ e' := by gcongr
    _ = 2 ^ (53 + e') := (zpow_add₀ two_ne_zero _ _).symm
    _ ≤ 2 ^ (52 + e) := zpow_le_zpow_right₀ one_le_two (by omega)
    _ = 2 ^ (52 : ℤ) * 2 ^ e := zpow_add₀ two_ne_zero _ _
    _ ≤ m * 2 ^ e := by gcongr

theorem eq_of_value_eq (h : IsCanonical m e) (h' : IsCanonical m' e')
    (heq : (m : ℚ) * 2 ^ e = m' * 2 ^ e') : m = m' ∧ e = e' := by
  obtain rfl : e = e' :=
    le_antisymm (h.exponent_le_of_le h' heq.le) (h'.exponent_le_of_le h heq.ge)
  have hpow : (2 : ℚ) ^ e ≠ 0 := by positivity
  exact ⟨by exact_mod_cast mul_right_cancel₀ hpow heq, rfl⟩

/-- Between two numbers with even mantissas there is another one. -/
theorem exists_between (h : IsCanonical m e) (h' : IsCanonical m' e') (he' : e' ≤ 971)
    (hm : Even m) (hm' : Even m') (hlt : (m : ℚ) * 2 ^ e < m' * 2 ^ e') :
    ∃ (x : Float) (k : ℕ), (Binary.ofFloat x).magnitude = .finite k e ∧
      (m : ℚ) * 2 ^ e < k * 2 ^ e ∧ (k : ℚ) * 2 ^ e < m' * 2 ^ e' := by
  have hle := h.exponent_le_of_le h' hlt.le
  have hpow : (0 : ℚ) < 2 ^ e := by positivity
  have hlast : m + 1 < 2 ^ 53 := by
    have := h.lt
    obtain ⟨j, rfl⟩ := hm
    omega
  have hnext : IsCanonical (m + 1) e :=
    ⟨hlast, h.exponent_ge, h.normal.imp_left fun hge => hge.trans (Nat.le_succ m)⟩
  obtain ⟨x, hx⟩ := exists_float_of_isCanonical (Nat.succ_pos m) hnext (by omega)
  refine ⟨x, m + 1, hx, ?_, ?_⟩
  · have : (m : ℚ) < (m + 1 : ℕ) := by exact_mod_cast Nat.lt_succ_self m
    gcongr
  · obtain ⟨d, rfl⟩ : ∃ d : ℕ, e' = d + e := ⟨(e' - e).toNat, by omega⟩
    have hvalue : (m' : ℚ) * 2 ^ ((d : ℤ) + e) = (m' * 2 ^ d : ℕ) * 2 ^ e := by
      rw [zpow_add₀ two_ne_zero, zpow_natCast]
      push_cast
      ring
    rw [hvalue] at hlt ⊢
    have hlt' : m < m' * 2 ^ d := by exact_mod_cast lt_of_mul_lt_mul_right hlt hpow.le
    have hne : m + 1 ≠ m' * 2 ^ d := by
      intro heq
      have heven : Even (m + 1) := heq ▸ hm'.mul_right _
      exact absurd hm (Nat.even_add_one.1 heven)
    have : ((m + 1 : ℕ) : ℚ) < (m' * 2 ^ d : ℕ) := by exact_mod_cast (by omega)
    gcongr

end IsCanonical

end ComputedTables.Decimal
