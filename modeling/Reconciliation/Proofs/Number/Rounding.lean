import Mathlib
import Reconciliation.Number.Shortest

/-!
Rounding to the nearest float, read as arithmetic on rationals. A significand with its two last
bits stands for a number; a shift keeps what it stands for, so that all ways to round one number
give the same float: `roundWithAccuracy_eq`.
-/
namespace Reconciliation

open Float.Model Float.Model.UnpackedFloat

/-- The nearest whole number, of two equally near ones the even one. -/
def nearestEven (x : ℚ) : ℕ :=
  let n := ⌊x⌋₊
  if x - n < 1 / 2 then n else if 1 / 2 < x - n then n + 1 else n + n % 2

/-- The nearest whole number, and the even one of two that are as near. -/
theorem nearestEven_eq {x : ℚ} {n : ℕ} (hx : 0 ≤ x) (hnear : |x - n| ≤ 1 / 2)
    (htie : |x - n| = 1 / 2 → n % 2 = 0) : nearestEven x = n := by
  have hfloor := Nat.floor_le hx
  have hlt := Nat.lt_floor_add_one x
  obtain ⟨hlow, hhigh⟩ := abs_le.mp hnear
  have hn : n = ⌊x⌋₊ ∨ n = ⌊x⌋₊ + 1 := by
    have h1 : ((⌊x⌋₊ : ℕ) : ℚ) < ((n + 1 : ℕ) : ℚ) := by push_cast; linarith
    have h2 : ((n : ℕ) : ℚ) < ((⌊x⌋₊ + 2 : ℕ) : ℚ) := by push_cast; linarith
    have h1 := Nat.cast_lt.mp h1
    have h2 := Nat.cast_lt.mp h2
    omega
  unfold nearestEven
  dsimp only
  rcases hn with hn | hn
  · split_ifs with h1 h2
    · exact hn.symm
    · rw [hn] at hhigh
      linarith
    · have hhalf : |x - n| = 1 / 2 := by
        rw [hn, abs_of_nonneg (by linarith)]
        linarith
      have := htie hhalf
      omega
  · have hcast : (n : ℚ) = (⌊x⌋₊ : ℚ) + 1 := by rw [hn]; push_cast; rfl
    split_ifs with h1 h2
    · rw [hcast] at hlow
      linarith
    · exact hn.symm
    · have hhalf : |x - n| = 1 / 2 := by
        rw [hcast, abs_of_nonpos (by linarith)]
        linarith
      have := htie hhalf
      omega

/-- Rounding to a whole number is off by half at most. -/
theorem abs_sub_nearestEven_le {x : ℚ} (hx : 0 ≤ x) : |x - nearestEven x| ≤ 1 / 2 := by
  have hfloor := Nat.floor_le hx
  have hlt := Nat.lt_floor_add_one x
  unfold nearestEven
  dsimp only
  split_ifs with h1 h2
  · rw [abs_of_nonneg (by linarith)]
    linarith
  · push_cast
    rw [abs_of_nonpos (by linarith)]
    linarith
  · rcases Nat.mod_two_eq_zero_or_one ⌊x⌋₊ with h | h <;> rw [h] <;> push_cast <;> rw [abs_le] <;>
      constructor <;> linarith

theorem le_nearestEven {x : ℚ} {n : ℕ} (h : (n : ℚ) ≤ x) : n ≤ nearestEven x := by
  have hfloor : n ≤ ⌊x⌋₊ := Nat.le_floor h
  unfold nearestEven
  dsimp only
  split_ifs <;> omega

/-- A number that is at most a whole number is rounded to at most that number. -/
theorem nearestEven_le {x : ℚ} {n : ℕ} (hx : 0 ≤ x) (h : x ≤ n) : nearestEven x ≤ n := by
  have hle := Nat.floor_le hx
  rcases (Nat.floor_le_of_le h).lt_or_eq with hlt | heq
  · unfold nearestEven
    dsimp only
    split_ifs <;> omega
  · have hrest : x - ⌊x⌋₊ < 1 / 2 := by
      rw [heq]
      linarith
    unfold nearestEven
    dsimp only
    rw [if_pos hrest, heq]

/-- What a significand with its two last bits says about a number. -/
def StandsFor (em : ExtendedMantissa) (x : ℚ) : Prop :=
  match em.roundBit, em.stickyBit with
  | false, false => x = em.mantissa
  | false, true => (em.mantissa : ℚ) < x ∧ x < em.mantissa + 1 / 2
  | true, false => x = em.mantissa + 1 / 2
  | true, true => (em.mantissa : ℚ) + 1 / 2 < x ∧ x < em.mantissa + 1

theorem StandsFor.floor {em : ExtendedMantissa} {x : ℚ} (h : StandsFor em x) :
    ⌊x⌋₊ = em.mantissa := by
  obtain ⟨m, r, s⟩ := em
  have hm : (0 : ℚ) ≤ (m : ℚ) := Nat.cast_nonneg m
  have hbounds : (m : ℚ) ≤ x ∧ x < m + 1 := by
    cases r <;> cases s <;> simp only [StandsFor] at h <;> constructor <;> linarith
  exact (Nat.floor_eq_iff (hm.trans hbounds.1)).mpr hbounds

/-- The significand with its two last bits is rounded as the number that it stands for. -/
theorem StandsFor.rounded {em : ExtendedMantissa} {x : ℚ} (h : StandsFor em x) :
    em.roundedMantissa = nearestEven x := by
  have hfloor := h.floor
  obtain ⟨m, r, s⟩ := em
  unfold nearestEven
  rw [hfloor]
  cases r <;> cases s <;>
    simp only [StandsFor, ExtendedMantissa.roundedMantissa, ExtendedMantissa.accuracy,
      Accuracy.roundToNearestEven] at h ⊢
  · rw [if_pos (by linarith)]
  · rw [if_pos (by linarith)]
  · rw [if_neg (by linarith), if_neg (by linarith)]
  · rw [if_neg (by linarith), if_pos (by linarith)]

theorem StandsFor.shiftRightOne {em : ExtendedMantissa} {x : ℚ} (h : StandsFor em x) :
    StandsFor em.shiftRightOne (x / 2) := by
  obtain ⟨m, r, s⟩ := em
  have hsplit : (m : ℚ) = 2 * (m / 2 : ℕ) + (m % 2 : ℕ) := by
    exact_mod_cast (Nat.div_add_mod m 2).symm
  have hodd : ((1 : ℕ) != 0) = true := rfl
  rcases Nat.mod_two_eq_zero_or_one m with hm | hm <;> cases r <;> cases s <;>
    simp only [StandsFor, ExtendedMantissa.shiftRightOne, hm, hodd, bne_self_eq_false,
      Bool.or_self, Bool.or_false, Bool.or_true, Nat.cast_zero, Nat.cast_one] at h hsplit ⊢ <;>
    (try constructor) <;> linarith

theorem StandsFor.shiftRight {em : ExtendedMantissa} {x : ℚ} (h : StandsFor em x) (n : ℕ) :
    StandsFor (em >>> n) (x / 2 ^ n) := by
  change StandsFor (n.repeat ExtendedMantissa.shiftRightOne em) (x / 2 ^ n)
  induction n with
  | zero => rwa [pow_zero, div_one]
  | succ n ih =>
    rw [pow_succ, ← div_div]
    exact ih.shiftRightOne

/-- The exponent of the last place of the float nearest to a number. -/
def quantum (v : ℚ) : ℤ := max (Int.log 2 v - 52) (-1074)

/-- The number in units of its last place, rounded. -/
def units (v : ℚ) : ℕ := nearestEven (v / 2 ^ quantum v)

/-- So many units of a power of two, where a carry may have reached the next power. -/
def ofUnits (s : Sign) (n : ℕ) (q : ℤ) : UnpackedFloat :=
  if h : n = 0 then .zero s
  else if n < 2 ^ 53 then .finite s n q (Nat.pos_of_ne_zero h)
  else .finite s (2 ^ 52) (q + 1) (by decide)

theorem two_zpow_pos (e : ℤ) : (0 : ℚ) < 2 ^ e := zpow_pos (by norm_num) e

theorem pow_toNat {e : ℤ} (he : 0 ≤ e) (x : ℚ) : x ^ e.toNat = x ^ e := by
  rw [← zpow_natCast, Int.toNat_of_nonneg he]

/-- The magnitude of a number is known from the leading digits of it. -/
theorem log_eq {v : ℚ} {m : ℕ} {e : ℤ} (hm : 0 < m) (hlow : (m : ℚ) * 2 ^ e ≤ v)
    (hhigh : v < (m + 1) * 2 ^ e) : Int.log 2 v = m.log2 + e := by
  have hpos := two_zpow_pos e
  have hv : 0 < v := lt_of_lt_of_le (mul_pos (Nat.cast_pos.mpr hm) hpos) hlow
  have h2 : (2 : ℚ) ≠ 0 := by norm_num
  apply le_antisymm
  · rw [← Int.lt_add_one_iff]
    apply (Int.lt_zpow_iff_log_lt (by norm_num) hv).mp
    have hbound : (m : ℚ) + 1 ≤ 2 ^ (m.log2 + 1) := by exact_mod_cast Nat.lt_log2_self (n := m)
    calc v < (m + 1) * 2 ^ e := hhigh
      _ ≤ 2 ^ (m.log2 + 1) * 2 ^ e := mul_le_mul_of_nonneg_right hbound hpos.le
      _ = ((2 : ℕ) : ℚ) ^ ((m.log2 : ℤ) + e + 1) := by
        push_cast
        rw [show (m.log2 : ℤ) + e + 1 = ((m.log2 + 1 : ℕ) : ℤ) + e by push_cast; ring,
          zpow_add₀ h2, zpow_natCast]
  · apply (Int.zpow_le_iff_le_log (by norm_num) hv).mp
    have hbound : (2 : ℚ) ^ m.log2 ≤ m := by exact_mod_cast Nat.log2_self_le hm.ne'
    calc ((2 : ℕ) : ℚ) ^ ((m.log2 : ℤ) + e) = 2 ^ m.log2 * 2 ^ e := by
          push_cast
          rw [zpow_add₀ h2, zpow_natCast]
      _ ≤ m * 2 ^ e := mul_le_mul_of_nonneg_right hbound hpos.le
      _ ≤ v := hlow

theorem targetExponent_eq (m : ℕ) (e : ℤ) :
    Format.binary64.targetExponent (totalExponent m e) = max (m.log2 + e - 52) (-1074) := by
  simp only [Format.targetExponent, totalExponent, Format.mantissaBits, Format.minExponent]
  norm_num
  omega


theorem quantum_eq {v : ℚ} {m : ℕ} {e : ℤ} (hm : 0 < m) (hlow : (m : ℚ) * 2 ^ e ≤ v)
    (hhigh : v < (m + 1) * 2 ^ e) :
    Format.binary64.targetExponent (totalExponent m e) = quantum v := by
  rw [targetExponent_eq, quantum, log_eq hm hlow hhigh]

/-- In units of its last place a number is below `2 ^ 53`. -/
theorem lt_units_bound (v : ℚ) : v / 2 ^ quantum v < 2 ^ 53 := by
  have hlog := Int.lt_zpow_succ_log_self (b := 2) (by norm_num) v
  rw [div_lt_iff₀ (two_zpow_pos _)]
  calc v < ((2 : ℕ) : ℚ) ^ (Int.log 2 v + 1) := hlog
    _ ≤ 2 ^ (53 + quantum v) := by
      push_cast
      refine zpow_le_zpow_right₀ (by norm_num) ?_
      unfold quantum
      omega
    _ = 2 ^ 53 * 2 ^ quantum v := by
      rw [zpow_add₀ (by norm_num)]
      norm_cast

theorem units_le (v : ℚ) (hv : 0 < v) : units v ≤ 2 ^ 53 :=
  nearestEven_le (div_pos hv (two_zpow_pos _)).le (by exact_mod_cast (lt_units_bound v).le)

/-- Above the lowest place the significand has full length. -/
theorem le_units {v : ℚ} (hv : 0 < v) (hq : -1074 < quantum v) : 2 ^ 52 ≤ units v := by
  apply le_nearestEven
  have hlog := Int.zpow_log_le_self (b := 2) (by norm_num) hv
  rw [le_div_iff₀ (two_zpow_pos _)]
  push_cast at hlog ⊢
  calc (2 : ℚ) ^ 52 * 2 ^ quantum v = 2 ^ (52 + quantum v) := by
        rw [zpow_add₀ (by norm_num)]
        norm_cast
    _ ≤ 2 ^ Int.log 2 v := by
      refine zpow_le_zpow_right₀ (by norm_num) ?_
      unfold quantum at hq ⊢
      omega
    _ ≤ v := hlog

theorem shiftRight_zero (em : ExtendedMantissa) : em >>> 0 = em := rfl

/-- A significand that fits is not shifted. -/
theorem shift_eq_self {n : ℕ} {q : ℤ} (hn : n < 2 ^ 53) (hq : -1074 ≤ q) :
    shiftToTargetExponent Format.binary64 n q .exact = (⟨n, false, false⟩, q) := by
  have hlog : n.log2 ≤ 52 := by
    by_cases hzero : n = 0
    · rw [hzero]
      decide
    · have := (Nat.log2_lt hzero).mpr hn
      omega
  have hshift : (Format.binary64.targetExponent (totalExponent n q) - q).toNat = 0 := by
    rw [targetExponent_eq]
    omega
  simp only [shiftToTargetExponent, shiftToExponent, hshift, shiftRight_zero,
    ExtendedMantissa.ofMantissaAndAccuracy, Nat.cast_zero, add_zero]

theorem shift_carry {q : ℤ} (hq : -1074 ≤ q) :
    shiftToTargetExponent Format.binary64 (2 ^ 53) q .exact = (⟨2 ^ 52, false, false⟩, q + 1) := by
  have hshift : (Format.binary64.targetExponent (totalExponent (2 ^ 53) q) - q).toNat = 1 := by
    rw [targetExponent_eq, Nat.log2_two_pow]
    omega
  simp only [shiftToTargetExponent, shiftToExponent, hshift]
  rfl

/-- Rounding gives the nearest number of units, whatever significand the number came from. -/
theorem roundWithAccuracy_eq_of_target {s : Sign} {m : ℕ} {e : ℤ} {acc : Accuracy} {v : ℚ}
    (hv : 0 < v) (hstands : StandsFor (ExtendedMantissa.ofMantissaAndAccuracy m acc) (v / 2 ^ e))
    (htarget : Format.binary64.targetExponent (totalExponent m e) = quantum v)
    (he : e ≤ quantum v) :
    roundWithAccuracy Format.binary64 s m e acc = ofUnits s (units v) (quantum v) := by
  have hpower : (2 : ℚ) ^ quantum v = 2 ^ e * 2 ^ (quantum v - e).toNat := by
    rw [← zpow_natCast, ← zpow_add₀ (by norm_num)]
    congr 1
    omega
  have hunits : (ExtendedMantissa.ofMantissaAndAccuracy m acc >>>
      (quantum v - e).toNat).roundedMantissa = units v := by
    rw [(hstands.shiftRight _).rounded, div_div, ← hpower]
    rfl
  have hfirst : (shiftToTargetExponent Format.binary64 m e acc).1.roundedMantissa = units v ∧
      (shiftToTargetExponent Format.binary64 m e acc).2 = quantum v := by
    simp only [shiftToTargetExponent, shiftToExponent, htarget]
    refine ⟨hunits, ?_⟩
    omega
  have hmin : -1074 ≤ quantum v := le_max_right _ _
  unfold roundWithAccuracy ofUnits
  dsimp only
  rw [hfirst.1, hfirst.2]
  rcases (units_le v hv).lt_or_eq with hlt | heq
  · rw [shift_eq_self hlt hmin]
    simp only [hlt, if_true]
  · rw [heq, shift_carry hmin]
    rfl

theorem ofMantissaAndAccuracy_mantissa (m : ℕ) (acc : Accuracy) :
    (ExtendedMantissa.ofMantissaAndAccuracy m acc).mantissa = m := by
  cases acc with
  | exact => rfl
  | inexact o => cases o <;> rfl

theorem StandsFor.bounds {m : ℕ} {e : ℤ} {acc : Accuracy} {v : ℚ} (hv : 0 ≤ v)
    (h : StandsFor (ExtendedMantissa.ofMantissaAndAccuracy m acc) (v / 2 ^ e)) :
    (m : ℚ) * 2 ^ e ≤ v ∧ v < (m + 1) * 2 ^ e := by
  have hpos := two_zpow_pos e
  have hfloor : ⌊v / 2 ^ e⌋₊ = m := h.floor.trans (ofMantissaAndAccuracy_mantissa m acc)
  obtain ⟨hlow, hhigh⟩ := (Nat.floor_eq_iff (div_nonneg hv hpos.le)).mp hfloor
  exact ⟨(le_div_iff₀ hpos).mp hlow, (div_lt_iff₀ hpos).mp hhigh⟩

theorem roundWithAccuracy_eq {s : Sign} {m : ℕ} {e : ℤ} {acc : Accuracy} {v : ℚ} (hm : 0 < m)
    (hv : 0 < v) (hstands : StandsFor (ExtendedMantissa.ofMantissaAndAccuracy m acc) (v / 2 ^ e))
    (he : e ≤ quantum v) :
    roundWithAccuracy Format.binary64 s m e acc = ofUnits s (units v) (quantum v) := by
  obtain ⟨hlow, hhigh⟩ := hstands.bounds hv.le
  exact roundWithAccuracy_eq_of_target hv hstands (quantum_eq hm hlow hhigh) he

theorem standsFor_exact (m : ℕ) (e : ℤ) :
    StandsFor (ExtendedMantissa.ofMantissaAndAccuracy m .exact) ((m : ℚ) * 2 ^ e / 2 ^ e) :=
  mul_div_cancel_right₀ (m : ℚ) (two_zpow_pos e).ne'

theorem mantissa_pos {m : ℕ} (hm : 0 < m) (e : ℤ) : (0 : ℚ) < m * 2 ^ e :=
  mul_pos (Nat.cast_pos.mpr hm) (two_zpow_pos e)

theorem quantum_mantissa {m : ℕ} (hm : 0 < m) (e : ℤ) :
    quantum (m * 2 ^ e) = max (m.log2 + e - 52) (-1074) := by
  have hpos := two_zpow_pos e
  rw [← targetExponent_eq, quantum_eq hm le_rfl]
  exact mul_lt_mul_of_pos_right (lt_add_one _) hpos

/-- Rounding a significand with an exponent gives the float nearest to the number. -/
theorem round_eq {s : Sign} {m : ℕ} {e : ℤ} (hm : 0 < m) :
    UnpackedFloat.round Format.binary64 s m e =
      ofUnits s (units (m * 2 ^ e)) (quantum (m * 2 ^ e)) := by
  have htarget : Format.binary64.targetExponent (totalExponent m e) = quantum (m * 2 ^ e) := by
    rw [quantum_mantissa hm, targetExponent_eq]
  unfold UnpackedFloat.round decreaseExponent
  dsimp only
  rw [htarget]
  generalize hk : (e - quantum (m * 2 ^ e)).toNat = k
  have hshift : ((m <<< k : ℕ) : ℚ) * 2 ^ (e - k) = m * 2 ^ e := by
    rw [Nat.shiftLeft_eq, Nat.cast_mul, mul_assoc]
    push_cast
    rw [← zpow_natCast, ← zpow_add₀ (by norm_num)]
    congr 2
    omega
  have hpos : 0 < m <<< k := by
    rw [Nat.shiftLeft_eq]
    positivity
  have hstands := standsFor_exact (m <<< k) (e - k)
  rw [hshift] at hstands
  exact roundWithAccuracy_eq hpos (mantissa_pos hm e) hstands (by omega)

end Reconciliation
