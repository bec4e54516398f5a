import Reconciliation.Proofs.Number.Decimal

/-!
Floats from decimals. A decimal fraction is read as the float nearest to it, both where digits
and power of ten are floats themselves and where they are not; so the shortest decimal of a float
is read as that float. Printed numbers are read back by this.
-/
namespace Reconciliation

open Float.Model Float.Model.UnpackedFloat FloatParts

theorem nearestEven_natCast (n : ℕ) : nearestEven n = n := by
  apply nearestEven_eq (Nat.cast_nonneg n) <;> rw [sub_self, abs_zero] <;> norm_num

/-- Whole numbers below `2 ^ 53` are floats. -/
theorem holds_toFloat {n : ℕ} (hn : 0 < n) (hfits : n < 2 ^ 53) : Holds n.toUInt64.toFloat n := by
  have hpos : (0 : ℚ) < n := Nat.cast_pos.mpr hn
  have hq : quantum n ≤ 0 := quantum_le (k := 53) hpos (by exact_mod_cast hfits) (by norm_num)
  have hunits : (units n : ℚ) * 2 ^ quantum n = n := by
    have hwhole : (n : ℚ) / 2 ^ quantum n = (n * 2 ^ (-quantum n).toNat : ℕ) := by
      push_cast
      rw [pow_toNat (by omega), zpow_neg, div_eq_mul_inv]
    rw [units, hwhole, nearestEven_natCast, ← hwhole, div_mul_cancel₀ _ (two_zpow_pos _).ne']
  rw [toFloat_eq_roundedFloat hn (by omega)]
  have := holds_roundedFloat hpos (by omega)
  rwa [hunits] at this

/-- The float is the whole number. -/
def isWhole (x : Float) (n : ℕ) : Bool :=
  match ofFloat x with
  | .finite false m e => n * 2 ^ (-e).toNat == m * 2 ^ e.toNat
  | _ => false

/-- A float that passes the test for a whole number holds it. -/
theorem holds_of_isWhole {x : Float} {n : ℕ} (h : isWhole x n = true) : Holds x n := by
  unfold isWhole at h
  split at h
  · rename_i m e hparts
    refine ⟨m, e, hparts, ?_⟩
    have hcast : (n : ℚ) * 2 ^ (-e).toNat = m * 2 ^ e.toNat := by
      exact_mod_cast eq_of_beq h
    rcases le_total 0 e with he | he
    · rwa [Int.toNat_of_nonpos (by omega), pow_zero, mul_one, pow_toNat he] at hcast
    · rw [Int.toNat_of_nonpos he, pow_zero, mul_one, pow_toNat (by omega), zpow_neg] at hcast
      exact (mul_inv_eq_iff_eq_mul₀ (two_zpow_pos e).ne').mp hcast
  · cases h

theorem isWhole_powersOfTen :
    ∀ e : Fin 23, isWhole Float.exactlyRepresentablePowersOfTen[e] (10 ^ e.val) = true := by
  decide +kernel

section Fraction
variable {m e : ℕ} (hm : 0 < m) (hlarge : (2 : ℚ) ^ (-1076 : ℤ) ≤ m / 10 ^ e)
include hlarge

theorem exponent_le : e ≤ 2048 + m.log2 := by
  by_contra hlt
  rw [le_div_iff₀ (by positivity)] at hlarge
  have hpower : (2 : ℚ) ^ (2 * e) ≤ 10 ^ e := by
    rw [pow_mul]
    exact pow_le_pow_left₀ (by norm_num) (by norm_num) e
  have hlog : (m : ℚ) < 2 ^ (m.log2 + 1) := by exact_mod_cast Nat.lt_log2_self
  have : (2 : ℚ) ^ (m.log2 + 1) ≤ 2 ^ (-1076 : ℤ) * 2 ^ (2 * e) := by
    rw [← zpow_natCast, ← zpow_natCast, ← zpow_add₀ (by norm_num)]
    exact zpow_le_zpow_right₀ (by norm_num) (by push_cast; omega)
  have := mul_le_mul_of_nonneg_left hpower (two_zpow_pos (-1076)).le
  linarith

include hm

/-- The division by a power of ten gives the nearest float of the exact quotient. -/
theorem model_ofScientific_eq (he : 0 < e) :
    UnpackedFloat.ofScientific Format.binary64 m (Int.negOfNat e) =
      ofUnits .positive (units (m / 10 ^ e)) (quantum (m / 10 ^ e)) := by
  have hexponent := exponent_le hlarge
  have hneg : Int.negOfNat e = -(e : ℤ) := Int.negOfNat_eq
  have hdiv := div_finite_eq hm (Nat.pow_pos (by decide) : 0 < 10 ^ e) 0 0
  rw [zpow_zero, mul_one, mul_one] at hdiv
  push_cast at hdiv
  unfold UnpackedFloat.ofScientific
  rw [dif_neg hm.ne', if_neg (by rw [hneg]; norm_num), if_neg (by
    rw [hneg]
    change ¬ (-(e : ℤ) < -((2 : ℤ) ^ 11 + m.log2))
    omega), if_neg (by omega)]
  simp only [hneg, neg_neg, Int.toNat_natCast]
  exact hdiv

/-- A decimal fraction is read as the float nearest to it. -/
theorem ofScientific_eq_roundedFloat (he : 0 < e) :
    Float.ofScientific m true e = roundedFloat (m / 10 ^ e) := by
  unfold Float.ofScientific
  by_cases hfast : m < 2 ^ 53 ∧ e ≤ 22
  · rw [dif_pos hfast, if_pos rfl]
    have hpower := holds_of_isWhole (isWhole_powersOfTen ⟨e, by omega⟩)
    have := div_eq_roundedFloat (holds_toFloat hm hfast.1) hpower (Nat.cast_pos.mpr hm)
      (Nat.cast_pos.mpr (Nat.pow_pos (by decide)))
    push_cast at this
    exact this
  · rw [dif_neg hfast]
    unfold roundedFloat
    rw [← model_ofScientific_eq hm hlarge he]
    rfl

end Fraction
end Reconciliation
