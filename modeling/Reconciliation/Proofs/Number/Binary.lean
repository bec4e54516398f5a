import Mathlib
import Reconciliation.Number.Shortest

/-!
Floats taken apart. The parts that are read off the bits are the sign, the significand and the
exponent of the unpacked float, every canonical pair of them is packed without loss, and a finite
float is determined by its parts.
-/
namespace Reconciliation

open Float.Model Float.Model.UnpackedFloat

def isNegative : Sign → Bool
  | .negative => true
  | .positive => false

namespace FloatParts

def ofUnpacked : UnpackedFloat → FloatParts
  | .infinity s => .infinite (isNegative s)
  | .notANumber => .notANumber
  | .zero s => .finite (isNegative s) 0 (-1074)
  | .finite s m e _ => .finite (isNegative s) m e

section Fields
variable (b : BitVec Format.binary64.numBits)

theorem toNat_unpackMantissa : (unpackMantissa b).toNat = b.toNat % 2 ^ 52 := by
  simp only [unpackMantissa, BitVec.toNat_cast, BitVec.extractLsb_toNat, Nat.shiftRight_zero]

theorem toNat_unpackExponent : (unpackExponent b).toNat = b.toNat / 2 ^ 52 % 2 ^ 11 := by
  simp only [unpackExponent, BitVec.toNat_cast, BitVec.extractLsb_toNat, Nat.shiftRight_eq_div_pow]

theorem toNat_unpackSign : (unpackSign b).toNat = b.toNat / 2 ^ 63 := by
  have hlt := b.isLt
  simp only [unpackSign, BitVec.toNat_cast, BitVec.extractLsb_toNat, Nat.shiftRight_eq_div_pow]
  norm_num at hlt ⊢
  omega

theorem isNegative_unpackSign :
    isNegative (Sign.ofBitVec (unpackSign b)) = decide (2 ^ 63 ≤ b.toNat) := by
  have hlt := b.isLt
  have hsign := toNat_unpackSign b
  unfold Sign.ofBitVec
  by_cases hzero : unpackSign b = 0#1
  · rw [if_pos hzero]
    rw [hzero] at hsign
    have : ¬ 2 ^ 63 ≤ b.toNat := by
      simp only [BitVec.toNat_ofNat] at hsign
      omega
    exact (decide_eq_false this).symm
  · rw [if_neg hzero]
    have hne : (unpackSign b).toNat ≠ 0 := fun h => hzero (BitVec.eq_of_toNat_eq h)
    have : 2 ^ 63 ≤ b.toNat := by omega
    exact (decide_eq_true this).symm

end Fields

/-- The parts that are read off the bits are those of the unpacked float. -/
theorem ofFloat_eq_ofUnpacked (x : Float) : ofFloat x = ofUnpacked x.toModel.unpack := by
  have hm := toNat_unpackMantissa x.toModel.toBits.toBitVec
  have he := toNat_unpackExponent x.toModel.toBits.toBitVec
  have hs := isNegative_unpackSign x.toModel.toBits.toBitVec
  have hexponent : (@unpackExponent Format.binary64 x.toModel.toBits.toBitVec = -1#_) ↔
      x.toModel.toBits.toBitVec.toNat / 2 ^ 52 % 2 ^ 11 = 2047 := by
    rw [← he, ← BitVec.toNat_inj]
    rfl
  have hexponent0 : (@unpackExponent Format.binary64 x.toModel.toBits.toBitVec = 0#_) ↔
      x.toModel.toBits.toBitVec.toNat / 2 ^ 52 % 2 ^ 11 = 0 := by
    rw [← he, ← BitVec.toNat_inj]
    rfl
  have hmantissa0 : (@unpackMantissa Format.binary64 x.toModel.toBits.toBitVec = 0#_) ↔
      x.toModel.toBits.toBitVec.toNat % 2 ^ 52 = 0 := by
    rw [← hm, ← BitVec.toNat_inj]
    rfl
  have happend : (1#1 ++ @unpackMantissa Format.binary64
      x.toModel.toBits.toBitVec).toNat = 2 ^ 52 + x.toModel.toBits.toBitVec.toNat % 2 ^ 52 := by
    rw [BitVec.toNat_append, ← Nat.shiftLeft_add_eq_or_of_lt (BitVec.isLt _), hm]
    rfl
  have hbits : x.toBits.toNat = x.toModel.toBits.toBitVec.toNat := rfl
  unfold ofFloat Float.Model.unpack UnpackedFloat.unpack
  dsimp only
  rw [hbits]
  simp only [hexponent, hexponent0, hmantissa0, Nat.pow_eq]
  split_ifs with h1 h2 h3 h4
  · exact congrArg _ hs.symm
  · rfl
  · rw [h4]
    exact congrArg (FloatParts.finite · 0 (-1074)) hs.symm
  · simp only [ofUnpacked, hm, he, hs, h3]
    rfl
  · simp only [ofUnpacked, happend, he, hs]
    rfl

/-- The significands and exponents of the finite floats. -/
structure Canonical (m : ℕ) (e : ℤ) : Prop where
  fits : m < 2 ^ 53
  low : -1074 ≤ e
  high : e ≤ 971
  normal : m < 2 ^ 52 → e = -1074

theorem finite_of_isFinite {x : Float} (h : x.isFinite = true) :
    ∃ negative m e, ofFloat x = .finite negative m e := by
  rw [ofFloat_eq_ofUnpacked]
  change x.toModel.unpack.isFinite = true at h
  cases hu : x.toModel.unpack with
  | notANumber => rw [hu] at h; cases h
  | infinity s => rw [hu] at h; cases h
  | zero s => exact ⟨_, _, _, rfl⟩
  | finite s m e hm => exact ⟨_, _, _, rfl⟩

theorem canonical_of_ofFloat {x : Float} {negative : Bool} {m : ℕ} {e : ℤ}
    (h : ofFloat x = .finite negative m e) : Canonical m e := by
  unfold ofFloat at h
  simp only [Nat.pow_eq] at h
  split_ifs at h with h1 h2 h3 <;> simp only [finite.injEq] at h
  all_goals
    obtain ⟨-, rfl, rfl⟩ := h
    constructor <;> omega

/-- Finite floats of the same parts are equal, zeros included. -/
theorem eq_of_ofFloat {x y : Float} {negative : Bool} {m : ℕ} {e : ℤ}
    (hx : ofFloat x = .finite negative m e) (hy : ofFloat y = .finite negative m e) : x = y := by
  have hxlt := x.toBits.toNat_lt
  have hylt := y.toBits.toNat_lt
  have hbits : x.toBits.toNat = y.toBits.toNat := by
    unfold ofFloat at hx hy
    simp only [Nat.pow_eq] at hx hy
    have hsign : (2 ^ 63 ≤ x.toBits.toNat) ↔ 2 ^ 63 ≤ y.toBits.toNat := by
      split_ifs at hx hy <;> simp only [finite.injEq] at hx hy
      all_goals exact decide_eq_decide.mp (hx.1.trans hy.1.symm)
    split_ifs at hx hy <;> simp only [finite.injEq] at hx hy <;> omega
  obtain ⟨⟨bx, hbx⟩⟩ := x
  obtain ⟨⟨yx, hyx⟩⟩ := y
  obtain rfl : bx = yx := UInt64.toNat_inj.mp hbits
  rfl

theorem unpack_pack_zero (s : Sign) : (Float.Model.pack (.zero s)).unpack = .zero s := by
  cases s <;> rfl

/-- A significand of full length has its leading bit left out, a shorter one has the lowest
exponent. -/
theorem pack_finite {s : Sign} {m : ℕ} {e : ℤ} (hm : 0 < m) (hhigh : e ≤ 971) :
    UnpackedFloat.pack Format.binary64 (.finite s m e hm) =
      if m.log2 + 1 = Format.binary64.mantissaBits then
        packComponents Format.binary64 s (BitVec.ofNat 11 (e + 1075).toNat) (BitVec.ofNat 52 m)
      else packComponents Format.binary64 s 0#11 (BitVec.ofNat 52 m) := by
  have hfield : (e + Format.binary64.exponentBias + (52 : ℕ)).toNat = (e + 1075).toNat := by
    simp only [Format.exponentBias]
    omega
  have hroom : ¬ 2 ^ 11 ≤ (e + 1075).toNat + 1 := by omega
  unfold UnpackedFloat.pack
  dsimp only
  rw [hfield, if_neg hroom]

/-- A short significand is unpacked with the lowest exponent. -/
theorem unpack_subnormal {s : Sign} {m : ℕ} (hm : 0 < m) (hsmall : m < 2 ^ 52) :
    UnpackedFloat.unpack Format.binary64
      (packComponents Format.binary64 s 0#11 (BitVec.ofNat 52 m)) = .finite s m (-1074) hm := by
  have hmantissa : (BitVec.ofNat 52 m).toNat = m := by
    rw [BitVec.toNat_ofNat, Nat.mod_eq_of_lt hsmall]
  have hne : BitVec.ofNat 52 m ≠ 0#52 := by
    intro h
    have := congrArg BitVec.toNat h
    rw [hmantissa] at this
    exact hm.ne' this
  unfold UnpackedFloat.unpack
  simp only [unpackMantissa_packComponents, unpackExponent_packComponents,
    unpackSign_packComponents, Sign.ofBitVec_toBitVec]
  rw [if_neg (by decide), if_pos trivial, dif_neg hne]
  simp only [hmantissa]
  rfl

/-- A significand of full length gets its leading bit back. -/
theorem unpack_normal {s : Sign} {m : ℕ} {e : ℤ} (hm : 0 < m) (hlarge : 2 ^ 52 ≤ m)
    (hfits : m < 2 ^ 53) (hlow : -1074 ≤ e) (hhigh : e ≤ 971) :
    UnpackedFloat.unpack Format.binary64 (packComponents Format.binary64 s
      (BitVec.ofNat 11 (e + 1075).toNat) (BitVec.ofNat 52 m)) = .finite s m e hm := by
  have hbias : ((e + 1075).toNat : ℤ) = e + 1075 := Int.toNat_of_nonneg (by omega)
  have hexponent : (BitVec.ofNat 11 (e + 1075).toNat).toNat = (e + 1075).toNat := by
    rw [BitVec.toNat_ofNat, Nat.mod_eq_of_lt (by omega)]
  have hne : ∀ n : ℕ, n ≤ 0 ∨ 2047 ≤ n → (e + 1075).toNat ≠ n := by omega
  have hfull : BitVec.ofNat 11 (e + 1075).toNat ≠ -1#11 := fun h =>
    hne 2047 (.inr le_rfl) (hexponent.symm.trans (congrArg BitVec.toNat h))
  have hnonzero : BitVec.ofNat 11 (e + 1075).toNat ≠ 0#11 := fun h =>
    hne 0 (.inl le_rfl) (hexponent.symm.trans (congrArg BitVec.toNat h))
  -- the leading bit of the mantissa is not stored
  have hmantissa : (1#1 ++ BitVec.ofNat 52 m).toNat = m := by
    rw [BitVec.toNat_append, ← Nat.shiftLeft_add_eq_or_of_lt (BitVec.isLt _),
      BitVec.toNat_ofNat, BitVec.toNat_ofNat, Nat.shiftLeft_eq]
    omega
  have hunbiased : e + 1075 - ((Format.binary64.exponentBias : ℤ) + (52 : ℕ)) = e := by
    simp only [Format.exponentBias]
    omega
  unfold UnpackedFloat.unpack
  simp only [unpackMantissa_packComponents, unpackExponent_packComponents,
    unpackSign_packComponents, Sign.ofBitVec_toBitVec]
  rw [if_neg hfull, if_neg hnonzero]
  simp only [hmantissa, hexponent, hbias, hunbiased]

/-- Canonical parts are packed without loss. -/
theorem unpack_pack_finite {s : Sign} {m : ℕ} {e : ℤ} (hm : 0 < m) (hc : Canonical m e) :
    (Float.Model.pack (.finite s m e hm)).unpack = .finite s m e hm := by
  obtain ⟨hfits, hlow, hhigh, hnormal⟩ := hc
  change UnpackedFloat.unpack Format.binary64 (UnpackedFloat.pack Format.binary64 _) = _
  rw [pack_finite hm hhigh]
  by_cases hsmall : m < 2 ^ 52
  · have hlog : ¬ m.log2 + 1 = Format.binary64.mantissaBits := by
      have := (Nat.log2_lt hm.ne').mpr hsmall
      change ¬ m.log2 + 1 = 53
      omega
    rw [if_neg hlog, unpack_subnormal hm hsmall]
    simp only [hnormal hsmall]
  · have hlog : m.log2 + 1 = Format.binary64.mantissaBits := by
      have h1 := (Nat.log2_lt hm.ne').mpr hfits
      have h2 := (Nat.le_log2 hm.ne').mpr (Nat.le_of_not_lt hsmall)
      change m.log2 + 1 = 53
      omega
    rw [if_pos hlog, unpack_normal hm (Nat.le_of_not_lt hsmall) hfits hlow hhigh]

theorem ofFloat_pack_zero (s : Sign) :
    ofFloat ⟨Float.Model.pack (.zero s)⟩ = .finite (isNegative s) 0 (-1074) := by
  rw [ofFloat_eq_ofUnpacked, unpack_pack_zero]
  rfl

theorem ofFloat_pack_finite {s : Sign} {m : ℕ} {e : ℤ} (hm : 0 < m) (hc : Canonical m e) :
    ofFloat ⟨Float.Model.pack (.finite s m e hm)⟩ = .finite (isNegative s) m e := by
  rw [ofFloat_eq_ofUnpacked, unpack_pack_finite hm hc]
  rfl

/-- A number that is too large for a float is packed as infinity. -/
theorem ofFloat_pack_overflow {m : ℕ} {e : ℤ} (hm : 0 < m) (he : 972 ≤ e) :
    ofFloat ⟨Float.Model.pack (.finite .positive m e hm)⟩ = .infinite false := by
  have hfull : 2 ^ Format.binary64.exponentBits ≤
      (e + Format.binary64.exponentBias + (52 : ℕ)).toNat + 1 := by
    simp only [Format.exponentBias]
    omega
  have hpack : UnpackedFloat.pack Format.binary64 (.finite .positive m e hm) =
      UnpackedFloat.pack Format.binary64 (.infinity .positive) := by
    unfold UnpackedFloat.pack
    exact if_pos hfull
  have hinfinite : ofFloat ⟨Float.Model.pack (.infinity .positive)⟩ = .infinite false := by
    decide
  unfold Float.Model.pack at hinfinite ⊢
  simp only [hpack]
  exact hinfinite

theorem unpack_of_ofFloat_infinite {x : Float} (h : ofFloat x = .infinite false) :
    x.toModel.unpack = .infinity .positive := by
  rw [ofFloat_eq_ofUnpacked] at h
  cases hu : x.toModel.unpack with
  | infinity s =>
    rw [hu] at h
    cases s with
    | positive => rfl
    | negative => cases h
  | zero s => rw [hu] at h; cases h
  | finite s m e hm => rw [hu] at h; cases h
  | notANumber => rw [hu] at h; cases h

theorem unpack_of_ofFloat_zero {x : Float} {e : ℤ} (h : ofFloat x = .finite false 0 e) :
    x.toModel.unpack = .zero .positive := by
  rw [ofFloat_eq_ofUnpacked] at h
  cases hu : x.toModel.unpack with
  | zero s =>
    rw [hu] at h
    cases s with
    | positive => rfl
    | negative => cases h
  | finite s m e' hm =>
    rw [hu] at h
    simp only [ofUnpacked, finite.injEq] at h
    omega
  | infinity s => rw [hu] at h; cases h
  | notANumber => rw [hu] at h; cases h

/-- A positive float is determined by its parts. -/
theorem unpack_of_ofFloat {x : Float} {m : ℕ} {e : ℤ} (hm : 0 < m)
    (h : ofFloat x = .finite false m e) : x.toModel.unpack = .finite .positive m e hm := by
  rw [ofFloat_eq_ofUnpacked] at h
  cases hu : x.toModel.unpack with
  | zero s =>
    rw [hu] at h
    simp only [ofUnpacked, finite.injEq] at h
    omega
  | finite s m' e' hm' =>
    rw [hu] at h
    simp only [ofUnpacked, finite.injEq] at h
    obtain ⟨hs, rfl, rfl⟩ := h
    cases s with
    | positive => rfl
    | negative => cases hs
  | infinity s => rw [hu] at h; cases h
  | notANumber => rw [hu] at h; cases h

/-- Negation turns the sign around and keeps the rest. -/
theorem ofFloat_neg {x : Float} {m : ℕ} {e : ℤ} (h : ofFloat x = .finite false m e) :
    ofFloat (-x) = .finite true m e := by
  have hc := canonical_of_ofFloat h
  change ofFloat ⟨Float.Model.pack x.toModel.unpack.neg⟩ = _
  rcases Nat.eq_zero_or_pos m with rfl | hm
  · rw [unpack_of_ofFloat_zero h, hc.normal (by decide)]
    exact ofFloat_pack_zero .negative
  · rw [unpack_of_ofFloat hm h]
    exact ofFloat_pack_finite (s := .negative) hm hc

end FloatParts
end Reconciliation
