import Reconciliation.Proofs.Number.Binary
import Reconciliation.Proofs.Number.Rounding

/-!
Arithmetic of floats that are finite and not negative. A sum, a product and a quotient are the
floats nearest to the exact results; a nearest float is off by half a unit of its last place at
most, and a number that a float holds is its own nearest float.
-/
namespace Reconciliation

open Float.Model Float.Model.UnpackedFloat

/-- The float is finite and not negative, and this is its exact value. -/
def Holds (x : Float) (v : ℚ) : Prop :=
  ∃ m e, FloatParts.ofFloat x = .finite false m e ∧ v = m * 2 ^ e

/-- The float nearest to a positive number. -/
def roundedFloat (v : ℚ) : Float :=
  ⟨Float.Model.pack (ofUnits .positive (units v) (quantum v))⟩

theorem Holds.unique {x : Float} {v w : ℚ} (hv : Holds x v) (hw : Holds x w) : v = w := by
  obtain ⟨m, e, hm, rfl⟩ := hv
  obtain ⟨n, f, hn, rfl⟩ := hw
  rw [hm] at hn
  cases hn
  rfl

theorem Holds.unpack {x : Float} {v : ℚ} (h : Holds x v) (hv : 0 < v) :
    ∃ (m : ℕ) (e : ℤ) (hm : 0 < m), x.toModel.unpack = .finite .positive m e hm ∧
      v = m * 2 ^ e ∧ FloatParts.Canonical m e := by
  obtain ⟨m, e, hparts, rfl⟩ := h
  have hm : 0 < m := by
    rcases Nat.eq_zero_or_pos m with rfl | hm
    · rw [Nat.cast_zero, zero_mul] at hv
      exact absurd hv (lt_irrefl 0)
    · exact hm
  exact ⟨m, e, hm, FloatParts.unpack_of_ofFloat hm hparts, rfl,
    FloatParts.canonical_of_ofFloat hparts⟩

/-- The product is the float nearest to the exact product. -/
theorem mul_eq_roundedFloat {x y : Float} {a b : ℚ} (hx : Holds x a) (hy : Holds y b) (ha : 0 < a)
    (hb : 0 < b) : x * y = roundedFloat (a * b) := by
  obtain ⟨m, e, hm, hxu, rfl, hxc⟩ := hx.unpack ha
  obtain ⟨n, f, hn, hyu, rfl, hyc⟩ := hy.unpack hb
  have hmn : 0 < m * n := Nat.mul_pos hm hn
  have hvalue : (m : ℚ) * 2 ^ e * (n * 2 ^ f) = (m * n : ℕ) * 2 ^ (e + f) := by
    rw [zpow_add₀ (by norm_num)]
    push_cast
    ring
  have hexponent : e + f ≤ quantum ((m * n : ℕ) * 2 ^ (e + f)) := by
    rw [quantum_mantissa hmn]
    by_cases hsmall : m < 2 ^ 52 ∧ n < 2 ^ 52
    · have := hxc.normal hsmall.1
      have := hyc.normal hsmall.2
      omega
    · have hlarge : 2 ^ 52 ≤ m * n := by
        rcases not_and_or.mp hsmall with h | h
        · exact (Nat.le_of_not_lt h).trans (Nat.le_mul_of_pos_right m hn)
        · exact (Nat.le_of_not_lt h).trans (Nat.le_mul_of_pos_left n hm)
      have := (Nat.le_log2 hmn.ne').mpr hlarge
      omega
  change (⟨Float.Model.pack (UnpackedFloat.mul Format.binary64 x.toModel.unpack
    y.toModel.unpack)⟩ : Float) = _
  rw [hxu, hyu]
  unfold UnpackedFloat.mul roundedFloat
  dsimp only
  rw [roundWithAccuracy_eq hmn (mantissa_pos hmn _) (standsFor_exact _ _) hexponent, hvalue]
  rfl

/-- The sum is the float nearest to the exact sum. -/
theorem add_eq_roundedFloat {x y : Float} {a b : ℚ} (hx : Holds x a) (hy : Holds y b) (ha : 0 < a)
    (hb : 0 < b) : x + y = roundedFloat (a + b) := by
  obtain ⟨m, e, hm, hxu, rfl, -⟩ := hx.unpack ha
  obtain ⟨n, f, hn, hyu, rfl, -⟩ := hy.unpack hb
  have hshift : ∀ (k : ℕ) (g h : ℤ), h ≤ g →
      ((k <<< (g - h).toNat : ℕ) : ℚ) * 2 ^ h = k * 2 ^ g := by
    intro k g h hle
    rw [Nat.shiftLeft_eq, Nat.cast_mul, mul_assoc]
    push_cast
    rw [← zpow_natCast, ← zpow_add₀ (by norm_num)]
    congr 2
    omega
  generalize hsum : m <<< (e - min e f).toNat + n <<< (f - min e f).toNat = k
  have hvalue : (m : ℚ) * 2 ^ e + n * 2 ^ f = k * 2 ^ min e f := by
    rw [← hshift m e _ (min_le_left e f), ← hshift n f _ (min_le_right e f), ← hsum]
    push_cast
    ring
  have hk : 0 < k := by
    rw [← hsum, Nat.shiftLeft_eq]
    positivity
  have hmantissa : Sign.positive.apply (m <<< (e - min e f).toNat : ℕ) +
      Sign.positive.apply (n <<< (f - min e f).toNat : ℕ) = (k : ℤ) := by
    rw [← hsum]
    rfl
  change (⟨Float.Model.pack (UnpackedFloat.add Format.binary64 x.toModel.unpack
    y.toModel.unpack)⟩ : Float) = _
  rw [hxu, hyu]
  unfold UnpackedFloat.add decreaseExponent roundedFloat
  dsimp only
  rw [hmantissa, UnpackedFloat.normalize, Int.compare_eq_gt.mpr (Int.natCast_pos.mpr hk)]
  dsimp only
  rw [Int.toNat_natCast, round_eq hk, hvalue]

theorem toFloat_eq_roundedFloat {n : ℕ} (hn : 0 < n) (hfits : n < 2 ^ 64) :
    n.toUInt64.toFloat = roundedFloat n := by
  have hword : n.toUInt64.toNat = n := by
    simp only [Nat.toUInt64_eq, UInt64.toNat_ofNat']
    exact Nat.mod_eq_of_lt hfits
  change (⟨Float.Model.pack (UnpackedFloat.normalize Format.binary64 (n.toUInt64.toNat : ℤ) 0
    .positive)⟩ : Float) = _
  rw [hword, UnpackedFloat.normalize, Int.compare_eq_gt.mpr (Int.natCast_pos.mpr hn)]
  dsimp only
  rw [Int.toNat_natCast, round_eq hn, zpow_zero, mul_one]
  rfl

/-- The two last bits that are kept of a division say all that rounding needs of its remainder. -/
theorem standsFor_fraction (k n : ℕ) (hn : 0 < n) :
    StandsFor (ExtendedMantissa.ofMantissaAndAccuracy (k / n) (accuracyOfFraction (k % n) n))
      ((k : ℚ) / n) := by
  have hpos : (0 : ℚ) < n := Nat.cast_pos.mpr hn
  have hrest : (k % n : ℕ) < (n : ℚ) := Nat.cast_lt.mpr (Nat.mod_lt k hn)
  have hsplit : (k : ℚ) / n = (k / n : ℕ) + (k % n : ℕ) / n := by
    rw [eq_comm, ← mul_left_inj' hpos.ne', add_mul, div_mul_cancel₀ _ hpos.ne',
      div_mul_cancel₀ _ hpos.ne', mul_comm]
    exact_mod_cast Nat.div_add_mod k n
  rw [hsplit]
  unfold accuracyOfFraction
  split_ifs with hexact
  · rw [hexact, Nat.cast_zero, zero_div, add_zero]
    rfl
  · have hone : ((k % n : ℕ) : ℚ) / n < 1 := (div_lt_one hpos).mpr hrest
    have hzero : 0 < ((k % n : ℕ) : ℚ) / n :=
      div_pos (Nat.cast_pos.mpr (Nat.pos_of_ne_zero hexact)) hpos
    rcases Nat.lt_trichotomy (2 * (k % n)) n with h | h | h
    · rw [Nat.compare_eq_lt.mpr h]
      have : ((k % n : ℕ) : ℚ) / n < 1 / 2 := by
        rw [div_lt_iff₀ hpos]
        have : (2 * (k % n : ℕ) : ℚ) < n := by exact_mod_cast h
        linarith
      change ((k / n : ℕ) : ℚ) < _ ∧ _ < ((k / n : ℕ) : ℚ) + 1 / 2
      exact ⟨by linarith, by linarith⟩
    · rw [Nat.compare_eq_eq.mpr h]
      have : ((k % n : ℕ) : ℚ) / n = 1 / 2 := by
        rw [div_eq_iff hpos.ne']
        have : (2 * (k % n : ℕ) : ℚ) = n := by exact_mod_cast h
        linarith
      change _ = ((k / n : ℕ) : ℚ) + 1 / 2
      rw [this]
    · rw [Nat.compare_eq_gt.mpr h]
      have : 1 / 2 < ((k % n : ℕ) : ℚ) / n := by
        rw [lt_div_iff₀ hpos]
        have : (n : ℚ) < 2 * (k % n : ℕ) := by exact_mod_cast h
        linarith
      change ((k / n : ℕ) : ℚ) + 1 / 2 < _ ∧ _ < ((k / n : ℕ) : ℚ) + 1
      exact ⟨by linarith, by linarith⟩

/-- The magnitude of a quotient is at most one below the difference of those of the operands. -/
theorem log_div {a b : ℚ} (ha : 0 < a) (hb : 0 < b) :
    Int.log 2 a - Int.log 2 b - 1 ≤ Int.log 2 (a / b) := by
  have h2 : (2 : ℚ) ≠ 0 := by norm_num
  have hlow := Int.zpow_log_le_self (b := 2) (by norm_num) ha
  have hhigh := Int.lt_zpow_succ_log_self (b := 2) (by norm_num) b
  apply (Int.zpow_le_iff_le_log (by norm_num) (div_pos ha hb)).mp
  rw [le_div_iff₀ hb]
  push_cast at hlow hhigh ⊢
  calc (2 : ℚ) ^ (Int.log 2 a - Int.log 2 b - 1) * b
      ≤ 2 ^ (Int.log 2 a - Int.log 2 b - 1) * 2 ^ (Int.log 2 b + 1) :=
        mul_le_mul_of_nonneg_left hhigh.le (two_zpow_pos _).le
    _ = 2 ^ Int.log 2 a := by
        rw [← zpow_add₀ h2]
        congr 1
        ring
    _ ≤ a := hlow

theorem log_mantissa {m : ℕ} (hm : 0 < m) (e : ℤ) : Int.log 2 ((m : ℚ) * 2 ^ e) = m.log2 + e :=
  log_eq hm le_rfl (mul_lt_mul_of_pos_right (lt_add_one _) (two_zpow_pos e))

/-- The quotient of two floats is the float nearest to the exact quotient. The division is carried
out with so many digits that the significand of the result is among them. -/
theorem div_finite_eq {m n : ℕ} (hm : 0 < m) (hn : 0 < n) (e f : ℤ) :
    UnpackedFloat.div Format.binary64 (.finite .positive m e hm) (.finite .positive n f hn) =
      ofUnits .positive (units ((m : ℚ) * 2 ^ e / (n * 2 ^ f)))
        (quantum ((m : ℚ) * 2 ^ e / (n * 2 ^ f))) := by
  generalize hv : (m : ℚ) * 2 ^ e / (n * 2 ^ f) = v
  have hvpos : 0 < v := by
    rw [← hv]
    exact div_pos (mantissa_pos hm e) (mantissa_pos hn f)
  have hlog : (m.log2 + e : ℤ) - (n.log2 + f) - 1 ≤ Int.log 2 v := by
    rw [← hv, ← log_mantissa hm, ← log_mantissa hn]
    exact log_div (mantissa_pos hm e) (mantissa_pos hn f)
  have htarget : Format.binary64.targetExponent (totalExponent m e - totalExponent n f) =
      max ((m.log2 + e : ℤ) - (n.log2 + f) - 53) (-1074) := by
    simp only [Format.targetExponent, totalExponent, Format.mantissaBits, Format.minExponent]
    norm_num
    omega
  generalize hT : min (e - f) (max ((m.log2 + e : ℤ) - (n.log2 + f) - 53) (-1074)) = T
  generalize hk : m <<< (e - f - T).toNat = k
  have hquotient : v / 2 ^ T = (k : ℚ) / n := by
    have hn0 : (n : ℚ) ≠ 0 := Nat.cast_ne_zero.mpr hn.ne'
    have hshift : (k : ℚ) = m * 2 ^ (e - f - T) := by
      rw [← hk, Nat.shiftLeft_eq, Nat.cast_mul]
      push_cast
      rw [← zpow_natCast, Int.toNat_of_nonneg (by omega)]
    rw [hshift, ← hv, zpow_sub₀ (by norm_num), zpow_sub₀ (by norm_num), div_div, mul_div_assoc']
    have hf := (two_zpow_pos f).ne'
    have ht := (two_zpow_pos T).ne'
    field_simp
  have hstands : StandsFor (ExtendedMantissa.ofMantissaAndAccuracy (k / n)
      (accuracyOfFraction (k % n) n)) (v / 2 ^ T) := by
    rw [hquotient]
    exact standsFor_fraction k n hn
  have hle : T ≤ quantum v := by
    unfold quantum
    omega
  unfold UnpackedFloat.div divCore
  dsimp only
  rw [htarget, hT, hk]
  rcases Nat.eq_zero_or_pos (k / n) with hzero | hpos
  · -- no bit of the quotient is left of the last place, so the number is below the least quantum
    have hbelow : Int.log 2 v < T := by
      rw [← Int.lt_zpow_iff_log_lt (by norm_num) hvpos]
      have := (hstands.bounds hvpos.le).2
      rwa [hzero, Nat.cast_zero, zero_add, one_mul] at this
    refine roundWithAccuracy_eq_of_target hvpos hstands ?_ hle
    rw [targetExponent_eq, hzero, quantum]
    have : (Nat.log2 0 : ℤ) = 0 := rfl
    omega
  · exact roundWithAccuracy_eq hpos hvpos hstands hle

theorem div_eq_roundedFloat {x y : Float} {a b : ℚ} (hx : Holds x a) (hy : Holds y b) (ha : 0 < a)
    (hb : 0 < b) : x / y = roundedFloat (a / b) := by
  obtain ⟨m, e, hm, hxu, rfl, -⟩ := hx.unpack ha
  obtain ⟨n, f, hn, hyu, rfl, -⟩ := hy.unpack hb
  change (⟨Float.Model.pack (UnpackedFloat.div Format.binary64 x.toModel.unpack
    y.toModel.unpack)⟩ : Float) = _
  rw [hxu, hyu, div_finite_eq hm hn]
  rfl

section Nearest
variable {v : ℚ}

/-- A number whose units fit has them as the significand of its nearest float. -/
theorem ofFloat_roundedFloat (hv : 0 < v) (hfits : units v < 2 ^ 53) (hq : quantum v ≤ 971) :
    FloatParts.ofFloat (roundedFloat v) = .finite false (units v) (quantum v) := by
  have hlow : -1074 ≤ quantum v := le_max_right _ _
  have hnormal : units v < 2 ^ 52 → quantum v = -1074 := by
    intro hsmall
    by_contra hne
    exact absurd hsmall (Nat.not_lt.mpr (le_units hv (lt_of_le_of_ne hlow (Ne.symm hne))))
  unfold roundedFloat ofUnits
  split_ifs with hzero
  · rw [hzero, hnormal (by omega)]
    exact FloatParts.ofFloat_pack_zero .positive
  · exact FloatParts.ofFloat_pack_finite (s := .positive) _ ⟨hfits, hlow, hq, hnormal⟩

theorem ofFloat_roundedFloat_carry (hcarry : units v = 2 ^ 53) (hq : quantum v ≤ 970) :
    FloatParts.ofFloat (roundedFloat v) = .finite false (2 ^ 52) (quantum v + 1) := by
  have hlow : -1074 ≤ quantum v := le_max_right _ _
  unfold roundedFloat ofUnits
  rw [hcarry, dif_neg (by decide), if_neg (by decide)]
  exact FloatParts.ofFloat_pack_finite (s := .positive) (by decide)
    ⟨by decide, by omega, by omega, fun h => absurd h (by decide)⟩

theorem holds_roundedFloat (hv : 0 < v) (hq : quantum v ≤ 970) :
    Holds (roundedFloat v) (units v * 2 ^ quantum v) := by
  rcases (units_le v hv).lt_or_eq with hlt | heq
  · exact ⟨_, _, ofFloat_roundedFloat hv hlt (by omega), rfl⟩
  · refine ⟨_, _, ofFloat_roundedFloat_carry heq hq, ?_⟩
    rw [heq, zpow_add_one₀ (by norm_num)]
    norm_num
    ring

theorem quantum_le {k : ℤ} (hv : 0 < v) (h : v < 2 ^ k) (hk : -1021 ≤ k) : quantum v ≤ k - 53 := by
  have : Int.log 2 v < k := by
    rw [← Int.lt_zpow_iff_log_lt (by norm_num) hv]
    exact_mod_cast h
  unfold quantum
  omega

/-- The place of the last bit is known from the magnitude, and it is the lowest one for small
numbers. -/
theorem quantum_eq_of_bounds {e : ℤ} (he : -1074 ≤ e) (hv : 0 < v) (hhigh : v < 2 ^ 53 * 2 ^ e)
    (hlow : 2 ^ 52 * 2 ^ e ≤ v ∨ e = -1074) : quantum v = e := by
  have hshift : ∀ n : ℕ, (2 : ℚ) ^ n * 2 ^ e = 2 ^ (n + e) := fun n => by
    rw [zpow_add₀ (by norm_num), zpow_natCast]
  have hlt : Int.log 2 v < 53 + e := by
    rw [← Int.lt_zpow_iff_log_lt (by norm_num) hv]
    exact_mod_cast hshift 53 ▸ hhigh
  unfold quantum
  rcases hlow with hlow | rfl
  · have : 52 + e ≤ Int.log 2 v := by
      rw [← Int.zpow_le_iff_le_log (by norm_num) hv]
      exact_mod_cast hshift 52 ▸ hlow
    omega
  · omega

/-- The nearest float is off by half a unit of the last place at most. -/
theorem abs_sub_units_le (hv : 0 < v) :
    |v - units v * 2 ^ quantum v| ≤ 2 ^ quantum v / 2 := by
  have hq := two_zpow_pos (quantum v)
  have := abs_sub_nearestEven_le (div_pos hv hq).le
  calc |v - units v * 2 ^ quantum v|
      = |v / 2 ^ quantum v - units v| * 2 ^ quantum v := by
        rw [← abs_of_pos hq, ← abs_mul, abs_of_pos hq, sub_mul, div_mul_cancel₀ _ hq.ne']
    _ ≤ 1 / 2 * 2 ^ quantum v := mul_le_mul_of_nonneg_right this hq.le
    _ = 2 ^ quantum v / 2 := by ring

theorem two_zpow_quantum_le (hv : 0 < v) (hnormal : (2 : ℚ) ^ (-1022 : ℤ) ≤ v) :
    (2 : ℚ) ^ quantum v ≤ v / 2 ^ 52 := by
  have hlog : -1022 ≤ Int.log 2 v := (Int.zpow_le_iff_le_log (by norm_num) hv).mp hnormal
  have hq : quantum v = Int.log 2 v - 52 := by
    unfold quantum
    omega
  rw [hq, le_div_iff₀ (by norm_num)]
  calc (2 : ℚ) ^ (Int.log 2 v - 52) * 2 ^ 52 = 2 ^ Int.log 2 v := by
        rw [zpow_sub₀ (by norm_num)]
        exact div_mul_cancel₀ _ (by norm_num)
    _ ≤ v := by exact_mod_cast Int.zpow_log_le_self (b := 2) (by norm_num) hv

/-- Half a unit of the last place, relative to the number, where the significand is full. -/
def roundoff : ℚ := 1 / 2 ^ 53

theorem roundoff_pos : 0 < roundoff := by
  unfold roundoff
  norm_num

theorem roundedFloat_near (hlow : (2 : ℚ) ^ (-1022 : ℤ) ≤ v) (hhigh : v < 2 ^ (1023 : ℤ)) :
    ∃ w, Holds (roundedFloat v) w ∧ v * (1 - roundoff) ≤ w ∧ w ≤ v * (1 + roundoff) := by
  have hv : 0 < v := (two_zpow_pos _).trans_le hlow
  have herror : |v - units v * 2 ^ quantum v| ≤ v * roundoff := by
    unfold roundoff
    have := two_zpow_quantum_le hv hlow
    have := abs_sub_units_le hv
    linarith
  obtain ⟨h1, h2⟩ := abs_le.mp herror
  refine ⟨_, holds_roundedFloat hv (quantum_le hv hhigh (by norm_num)), ?_, ?_⟩ <;> linarith

/-- Rounding does not go below one, since one is a float. -/
theorem one_le_units_mul (hone : 1 ≤ v) : 1 ≤ (units v : ℚ) * 2 ^ quantum v := by
  have hv : 0 < v := one_pos.trans_le hone
  have hpos := two_zpow_pos (quantum v)
  rcases lt_or_ge (quantum v) 0 with hneg | hnonneg
  · -- one is a whole number of units, so rounding does not pass it
    have hcast : ((2 ^ (-quantum v).toNat : ℕ) : ℚ) * 2 ^ quantum v = 1 := by
      push_cast
      rw [← zpow_natCast, Int.toNat_of_nonneg (by omega), ← zpow_add₀ (by norm_num),
        neg_add_cancel, zpow_zero]
    have hle : ((2 ^ (-quantum v).toNat : ℕ) : ℚ) ≤ v / 2 ^ quantum v := by
      rw [le_div_iff₀ hpos, hcast]
      exact hone
    rw [← hcast]
    exact mul_le_mul_of_nonneg_right (Nat.cast_le.mpr (le_nearestEven hle)) hpos.le
  · have hunits : (1 : ℚ) ≤ units v := by
      have : 2 ^ 52 ≤ units v := le_units hv (by omega)
      exact_mod_cast (by omega : 1 ≤ units v)
    exact one_le_mul_of_one_le_of_one_le hunits (one_le_zpow₀ (by norm_num) hnonneg)

/-- The nearest float holds the rounded number unless that is too large for a float. -/
theorem holds_or_infinite (hv : 0 < v) : Holds (roundedFloat v) (units v * 2 ^ quantum v) ∨
    FloatParts.ofFloat (roundedFloat v) = .infinite false := by
  by_cases hq : quantum v ≤ 970
  · exact .inl (holds_roundedFloat hv hq)
  by_cases hlast : quantum v = 971 ∧ units v < 2 ^ 53
  · exact .inl ⟨_, _, ofFloat_roundedFloat hv hlast.2 hlast.1.le, rfl⟩
  · right
    have hlarge : 2 ^ 52 ≤ units v := le_units hv (by omega)
    have := units_le v hv
    unfold roundedFloat ofUnits
    split_ifs with hzero hfits
    · omega
    · exact FloatParts.ofFloat_pack_overflow _ (by omega)
    · exact FloatParts.ofFloat_pack_overflow _ (by omega)

end Nearest

/-- The number is the exact one up to so many roundings. -/
structure Within (k : ℕ) (exact v : ℚ) : Prop where
  low : exact * (1 - roundoff) ^ k ≤ v
  high : v ≤ exact * (1 + roundoff) ^ k

theorem roundoff_lt_one : roundoff < 1 := by
  unfold roundoff
  norm_num

namespace Within
variable {k l : ℕ} {a b v w : ℚ}

theorem mono (h : Within k a v) (ha : 0 ≤ a) (hkl : k ≤ l) : Within l a v where
  low := by
    have hu := roundoff_pos
    have hu1 := roundoff_lt_one
    exact (mul_le_mul_of_nonneg_left (pow_le_pow_of_le_one (by linarith) (by linarith) hkl)
      ha).trans h.low
  high := by
    have hu := roundoff_pos
    exact h.high.trans (mul_le_mul_of_nonneg_left (pow_le_pow_right₀ (by linarith) hkl) ha)

theorem trans (h : Within k a v) (h' : Within l v w) : Within (k + l) a w where
  low := by
    have hu1 := roundoff_lt_one
    rw [pow_add, ← mul_assoc]
    exact (mul_le_mul_of_nonneg_right h.low (pow_nonneg (by linarith) l)).trans h'.low
  high := by
    have hu := roundoff_pos
    rw [pow_add, ← mul_assoc]
    exact h'.high.trans (mul_le_mul_of_nonneg_right h.high (by positivity))

theorem add (h : Within k a v) (h' : Within k b w) : Within k (a + b) (v + w) where
  low := by
    rw [add_mul]
    exact add_le_add h.low h'.low
  high := by
    rw [add_mul]
    exact add_le_add h.high h'.high

theorem div (h : Within k a v) {c : ℚ} (hc : 0 < c) : Within k (a / c) (v / c) where
  low := by
    rw [div_mul_eq_mul_div]
    exact div_le_div_of_nonneg_right h.low hc.le
  high := by
    rw [div_mul_eq_mul_div]
    exact div_le_div_of_nonneg_right h.high hc.le

/-- A few roundings change a number by less than a factor of two. -/
theorem halved_doubled (h : Within k a v) (ha : 0 ≤ a) (hk : k ≤ 3) : a / 2 ≤ v ∧ v ≤ 2 * a := by
  obtain ⟨hlow, hhigh⟩ := h.mono ha hk
  have hhalf : 1 / 2 ≤ (1 - roundoff) ^ 3 := by
    unfold roundoff
    norm_num
  have hdouble : (1 + roundoff) ^ 3 ≤ 2 := by
    unfold roundoff
    norm_num
  have := mul_le_mul_of_nonneg_left hhalf ha
  have := mul_le_mul_of_nonneg_left hdouble ha
  constructor <;> linarith

end Within

/-- Far from the ends of the range of floats. -/
theorem within_roundedFloat {v : ℚ} (hlow : 1 / 2 / 10 ^ 9 ≤ v) (hhigh : v < 2 ^ 66) :
    ∃ w, Holds (roundedFloat v) w ∧ Within 1 v w := by
  have hnormal : (2 : ℚ) ^ (-1022 : ℤ) ≤ v := by
    calc (2 : ℚ) ^ (-1022 : ℤ) ≤ 2 ^ (-31 : ℤ) := zpow_le_zpow_right₀ (by norm_num) (by norm_num)
      _ ≤ 1 / 2 / 10 ^ 9 := by
        rw [zpow_neg]
        norm_num
      _ ≤ v := hlow
  have hfinite : v < 2 ^ (1023 : ℤ) := by
    calc v < 2 ^ (66 : ℤ) := by exact_mod_cast hhigh
      _ < 2 ^ (1023 : ℤ) := zpow_lt_zpow_right₀ (by norm_num) (by norm_num)
  obtain ⟨w, hw, hbelow, habove⟩ := roundedFloat_near hnormal hfinite
  exact ⟨w, hw, by rwa [pow_one], by rwa [pow_one]⟩

end Reconciliation
