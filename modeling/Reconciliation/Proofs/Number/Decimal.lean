import Reconciliation.Proofs.Number.Arithmetic

/-!
The decimal of a float. The shortest decimal lies in the interval of the numbers that round to
the float: its candidates are tested for that, and the last of them, with seventeen digits, never
fails the test. Only that the decimal is in the interval is shown; that no shorter one is there
is not needed to read the float back.
-/
namespace Reconciliation.Decimal

open FloatParts

/-- The number that a decimal writes down. -/
def toRat (d : Decimal) : ℚ := d.digits * 10 ^ d.exponent

theorem ten_zpow_pos (p : ℤ) : (0 : ℚ) < 10 ^ p := zpow_pos (by norm_num) p

namespace Ratio
variable {r : Ratio}

/-- The number that a ratio writes down. -/
def toRat (r : Ratio) : ℚ := r.num / r.den

theorem ofDyadic_den_pos (n : ℕ) (e : ℤ) : 0 < (ofDyadic n e).den := by
  unfold ofDyadic
  split_ifs
  · exact Nat.one_pos
  · exact Nat.pow_pos (by decide)

theorem toRat_ofDyadic (n : ℕ) (e : ℤ) : (ofDyadic n e).toRat = n * 2 ^ e := by
  unfold ofDyadic toRat
  split_ifs with he
  · rw [← pow_toNat he]
    push_cast [Nat.pow_eq]
    rw [div_one]
  · rw [← neg_neg e, zpow_neg, neg_neg, ← pow_toNat (by omega : 0 ≤ -e)]
    push_cast [Nat.pow_eq]
    rw [div_eq_mul_inv]

theorem ofDyadic_num_pos {n : ℕ} (hn : 0 < n) (e : ℤ) : 0 < (ofDyadic n e).num := by
  unfold ofDyadic
  split_ifs
  · exact Nat.mul_pos hn (Nat.pow_pos (by decide))
  · exact hn

theorem log2_ofDyadic_den_lt (n : ℕ) {e : ℤ} (he : -1100 < e) :
    (ofDyadic n e).den.log2 < 1100 := by
  unfold ofDyadic
  split_ifs
  · exact (by decide : Nat.log2 1 < 1100)
  · dsimp only
    rw [Nat.pow_eq, Nat.log2_two_pow]
    omega

theorem scaled_den_pos (hr : 0 < r.den) (p : ℤ) : 0 < (r.scaled p).den := by
  unfold scaled
  split_ifs
  · exact Nat.mul_pos hr (Nat.pow_pos (by decide))
  · exact hr

theorem toRat_scaled (r : Ratio) (p : ℤ) : (r.scaled p).toRat = r.toRat / 10 ^ p := by
  unfold scaled toRat
  split_ifs with hp
  · rw [← pow_toNat hp]
    push_cast [Nat.pow_eq]
    rw [div_div]
  · rw [← neg_neg p, zpow_neg, neg_neg, ← pow_toNat (by omega : 0 ≤ -p)]
    push_cast [Nat.pow_eq]
    rw [div_inv_eq_mul, div_mul_eq_mul_div]

theorem num_le_iff (hr : 0 < r.den) (c : ℕ) : r.num ≤ c * r.den ↔ r.toRat ≤ c := by
  rw [toRat, div_le_iff₀ (Nat.cast_pos.mpr hr)]
  exact_mod_cast Iff.rfl

theorem num_lt_iff (hr : 0 < r.den) (c : ℕ) : r.num < c * r.den ↔ r.toRat < c := by
  rw [toRat, div_lt_iff₀ (Nat.cast_pos.mpr hr)]
  exact_mod_cast Iff.rfl

theorem le_num_iff (hr : 0 < r.den) (c : ℕ) : c * r.den ≤ r.num ↔ c ≤ r.toRat := by
  rw [toRat, le_div_iff₀ (Nat.cast_pos.mpr hr)]
  exact_mod_cast Iff.rfl

theorem lt_num_iff (hr : 0 < r.den) (c : ℕ) : c * r.den < r.num ↔ c < r.toRat := by
  rw [toRat, lt_div_iff₀ (Nat.cast_pos.mpr hr)]
  exact_mod_cast Iff.rfl

end Ratio

namespace Interval
variable {i : Interval} {m : ℕ} {e : ℤ} {v : ℚ}

/-- The number is in the interval. -/
def Contains (i : Interval) (v : ℚ) : Prop :=
  if i.closed then i.low * 2 ^ i.exponent ≤ v ∧ v ≤ i.high * 2 ^ i.exponent
  else i.low * 2 ^ i.exponent < v ∧ v < i.high * 2 ^ i.exponent

theorem contains_of_lt (hlow : i.low * 2 ^ i.exponent < v) (hhigh : v < i.high * 2 ^ i.exponent) :
    i.Contains v := by
  unfold Contains
  split_ifs
  · exact ⟨hlow.le, hhigh.le⟩
  · exact ⟨hlow, hhigh⟩

/-- The test of a candidate in whole numbers says whether it lies in the interval. -/
theorem contains_iff (i : Interval) (c : ℕ) (p : ℤ) :
    i.contains c p = true ↔ i.Contains (c * 10 ^ p) := by
  have hlow := Ratio.scaled_den_pos (Ratio.ofDyadic_den_pos i.low i.exponent) p
  have hhigh := Ratio.scaled_den_pos (Ratio.ofDyadic_den_pos i.high i.exponent) p
  have hp := ten_zpow_pos p
  unfold contains Contains
  split_ifs
  · rw [Bool.and_eq_true, decide_eq_true_eq, decide_eq_true_eq, Ratio.num_le_iff hlow,
      Ratio.le_num_iff hhigh, Ratio.toRat_scaled, Ratio.toRat_scaled, Ratio.toRat_ofDyadic,
      Ratio.toRat_ofDyadic, div_le_iff₀ hp, le_div_iff₀ hp]
  · rw [Bool.and_eq_true, decide_eq_true_eq, decide_eq_true_eq, Ratio.num_lt_iff hlow,
      Ratio.lt_num_iff hhigh, Ratio.toRat_scaled, Ratio.toRat_scaled, Ratio.toRat_ofDyadic,
      Ratio.toRat_ofDyadic, div_lt_iff₀ hp, lt_div_iff₀ hp]

theorem candidate?_contained {p : ℤ} {d : Decimal} (h : i.candidate? p = some d) :
    i.Contains d.toRat := by
  unfold candidate? at h
  dsimp only at h
  rw [toRat, ← contains_iff]
  split_ifs at h with hboth hnear hbelow <;> grind

/-- If one of the two decimals around the number lies in the interval, there is a candidate. -/
theorem candidate?_isSome {p : ℤ} {c : ℕ} (hlow : (c : ℚ) * 10 ^ p ≤ i.value * 2 ^ i.exponent)
    (hhigh : i.value * 2 ^ i.exponent < ((c + 1 : ℕ) : ℚ) * 10 ^ p)
    (h : i.Contains ((c : ℚ) * 10 ^ p) ∨ i.Contains (((c + 1 : ℕ) : ℚ) * 10 ^ p)) :
    (i.candidate? p).isSome = true := by
  have hden := Ratio.scaled_den_pos (Ratio.ofDyadic_den_pos i.value i.exponent) p
  have hp := ten_zpow_pos p
  have hvalue : ((Ratio.ofDyadic i.value i.exponent).scaled p).toRat =
      i.value * 2 ^ i.exponent / 10 ^ p := by
    rw [Ratio.toRat_scaled, Ratio.toRat_ofDyadic]
  have hquotient : ((Ratio.ofDyadic i.value i.exponent).scaled p).num /
      ((Ratio.ofDyadic i.value i.exponent).scaled p).den = c := by
    apply Nat.div_eq_of_lt_le
    · rw [Ratio.le_num_iff hden, hvalue, le_div_iff₀ hp]
      exact hlow
    · rw [Ratio.num_lt_iff hden, hvalue, div_lt_iff₀ hp]
      exact hhigh
  rw [← contains_iff, ← contains_iff] at h
  unfold candidate?
  dsimp only
  rw [hquotient]
  rcases h with h | h <;> rw [h] <;> split_ifs <;> simp_all

section Finite
variable {m : ℕ} {e : ℤ} (hm : 0 < m)

theorem value_ofFinite (m : ℕ) (e : ℤ) :
    ((ofFinite m e).value : ℚ) * 2 ^ (ofFinite m e).exponent = m * 2 ^ e := by
  change ((4 * m : ℕ) : ℚ) * 2 ^ (e - 2) = _
  rw [zpow_sub₀ (by norm_num)]
  push_cast
  ring

theorem high_ofFinite (m : ℕ) (e : ℤ) :
    ((ofFinite m e).high : ℚ) * 2 ^ (ofFinite m e).exponent = (m + 1 / 2) * 2 ^ e := by
  change ((4 * m + 2 : ℕ) : ℚ) * 2 ^ (e - 2) = _
  rw [zpow_sub₀ (by norm_num)]
  push_cast
  ring

include hm

/-- Below a power of two the floats lie closer, so the interval reaches down half as far there. -/
theorem low_ofFinite : ((ofFinite m e).low : ℚ) * 2 ^ (ofFinite m e).exponent =
    (m - if m = 2 ^ 52 ∧ -1074 < e then 1 / 4 else 1 / 2) * 2 ^ e := by
  have hcast : ((ofFinite m e).low : ℚ) = 4 * m - if m = 2 ^ 52 ∧ -1074 < e then 1 else 2 := by
    simp only [ofFinite, Nat.pow_eq]
    split_ifs
    · rw [Nat.cast_sub (by omega)]
      push_cast
      ring
    · rw [Nat.cast_sub (by omega)]
      push_cast
      ring
  rw [hcast]
  change _ * (2 : ℚ) ^ (e - 2) = _
  rw [zpow_sub₀ (by norm_num)]
  split_ifs <;> ring

theorem Contains.bounds (h : (ofFinite m e).Contains v) :
    (m - if m = 2 ^ 52 ∧ -1074 < e then 1 / 4 else 1 / 2) * 2 ^ e ≤ v ∧
      v ≤ (m + 1 / 2) * 2 ^ e := by
  unfold Contains at h
  rw [low_ofFinite hm, high_ofFinite] at h
  by_cases hclosed : (ofFinite m e).closed = true
  · rwa [if_pos hclosed] at h
  · rw [if_neg hclosed] at h
    exact ⟨h.1.le, h.2.le⟩

theorem Contains.even (h : (ofFinite m e).Contains v)
    (hend : v = (m - 1 / 2) * 2 ^ e ∧ ¬ (m = 2 ^ 52 ∧ -1074 < e) ∨ v = (m + 1 / 2) * 2 ^ e) :
    m % 2 = 0 := by
  by_contra hodd
  unfold Contains at h
  rw [low_ofFinite hm, high_ofFinite, if_neg (by simpa [ofFinite] using hodd)] at h
  rcases hend with ⟨hend, hwide⟩ | hend
  · rw [if_neg hwide, hend] at h
    exact lt_irrefl _ h.1
  · rw [hend] at h
    exact lt_irrefl _ h.2

theorem Contains.pos (h : (ofFinite m e).Contains v) : 0 < v := by
  have hone : (1 : ℚ) ≤ m := by exact_mod_cast hm
  refine lt_of_lt_of_le ?_ (h.bounds hm).1
  apply mul_pos _ (two_zpow_pos e)
  split_ifs <;> linarith

/-- Just below a power of two the units are half as large, and rounding carries. -/
theorem Contains.rounds_up (hc : Canonical m e) (h : (ofFinite m e).Contains v)
    (hnarrow : m = 2 ^ 52 ∧ -1074 < e) (hbelow : v < 2 ^ 52 * 2 ^ e) :
    ofFloat (roundedFloat v) = .finite false m e := by
  have hhalfpos := two_zpow_pos (e - 1)
  have hhalf : (2 : ℚ) ^ e = 2 * 2 ^ (e - 1) := by
    rw [zpow_sub_one₀ (by norm_num)]
    ring
  have hlow := (h.bounds hm).1
  rw [if_pos hnarrow, hnarrow.1, hhalf] at hlow
  push_cast at hlow
  rw [hhalf] at hbelow
  have hq : quantum v = e - 1 :=
    quantum_eq_of_bounds (by omega) (h.pos hm) (by linarith) (.inl (by linarith))
  have hnear : 2 ^ 53 - 1 / 2 ≤ v / 2 ^ (e - 1) ∧ v / 2 ^ (e - 1) ≤ 2 ^ 53 := by
    rw [le_div_iff₀ hhalfpos, div_le_iff₀ hhalfpos]
    constructor <;> linarith
  have hunits : units v = 2 ^ 53 := by
    unfold units
    rw [hq]
    refine nearestEven_eq (div_pos (h.pos hm) hhalfpos).le ?_ fun _ => by norm_num
    push_cast
    rw [abs_le]
    constructor <;> linarith
  have hhigh : quantum v ≤ 970 := by
    rw [hq]
    have := hc.high
    omega
  rw [ofFloat_roundedFloat_carry hunits hhigh, hq, hnarrow.1, sub_add_cancel]

/-- Half a unit away at most, and no unit is smaller. -/
theorem Contains.rounds_near (hc : Canonical m e) (h : (ofFinite m e).Contains v)
    (hwide : (m - 1 / 2) * 2 ^ e ≤ v) (hlarge : 2 ^ 52 * 2 ^ e ≤ v ∨ e = -1074) :
    ofFloat (roundedFloat v) = .finite false m e := by
  have he := two_zpow_pos e
  have hv := h.pos hm
  obtain ⟨hlow, hhigh⟩ := h.bounds hm
  have hupper : v < 2 ^ 53 * 2 ^ e := by
    have : ((m + 1 : ℕ) : ℚ) ≤ (2 ^ 53 : ℕ) := Nat.cast_le.mpr hc.fits
    push_cast at this
    refine lt_of_le_of_lt hhigh (mul_lt_mul_of_pos_right ?_ he)
    linarith
  have hq : quantum v = e := quantum_eq_of_bounds hc.low hv hupper hlarge
  have hnear : m - 1 / 2 ≤ v / 2 ^ e ∧ v / 2 ^ e ≤ m + 1 / 2 := by
    rw [le_div_iff₀ he, div_le_iff₀ he]
    exact ⟨hwide, hhigh⟩
  have hunits : units v = m := by
    unfold units
    rw [hq]
    refine nearestEven_eq (div_pos hv he).le (abs_le.mpr ⟨by linarith, by linarith⟩) fun htie => ?_
    apply h.even hm
    rcases eq_or_eq_neg_of_abs_eq htie with heq | heq
    · right
      rw [← div_eq_iff he.ne']
      linarith
    · have hvalue : v = (m - 1 / 2) * 2 ^ e := by
        rw [← div_eq_iff he.ne']
        linarith
      refine .inl ⟨hvalue, fun hnarrow => ?_⟩
      rw [if_pos hnarrow, hvalue] at hlow
      have := le_of_mul_le_mul_right hlow he
      linarith
  rw [ofFloat_roundedFloat hv (by rw [hunits]; exact hc.fits) (by rw [hq]; exact hc.high),
    hunits, hq]

/-- What is in the interval of a float rounds to the float. -/
theorem Contains.rounds (hc : Canonical m e) (h : (ofFinite m e).Contains v) :
    ofFloat (roundedFloat v) = .finite false m e := by
  have he := two_zpow_pos e
  by_cases hcarry : (m = 2 ^ 52 ∧ -1074 < e) ∧ v < 2 ^ 52 * 2 ^ e
  · exact h.rounds_up hm hc hcarry.1 hcarry.2
  have hlow := hc.low
  have hwide : (m - 1 / 2 : ℚ) * 2 ^ e ≤ v := by
    refine le_trans (mul_le_mul_of_nonneg_right ?_ he.le) (h.bounds hm).1
    split_ifs <;> linarith
  refine h.rounds_near hm hc hwide ?_
  rcases eq_or_ne e (-1074) with hleast | hleast
  · exact .inr hleast
  left
  rcases eq_or_ne m (2 ^ 52) with heq | hne
  · exact not_lt.mp fun hlt => hcarry ⟨⟨heq, by omega⟩, hlt⟩
  · have hm52 : 2 ^ 52 + 1 ≤ m := by
      have := Nat.le_of_not_lt fun hlt => hleast (hc.normal hlt)
      omega
    have : ((2 ^ 52 + 1 : ℕ) : ℚ) ≤ m := Nat.cast_le.mpr hm52
    push_cast at this
    exact (mul_le_mul_of_nonneg_right (by linarith) he.le).trans hwide

/-- Seventeen digits suffice: their spacing is below one unit of the last place, so one of the two
neighbours of the float is less than half a unit away, and below the smaller spacing under a power
of two it is the upper one. -/
theorem seventeen_suffice (hc : Canonical m e) {p : ℤ} (hp : (10 : ℚ) ^ (p + 16) ≤ m * 2 ^ e) :
    ((ofFinite m e).candidate? p).isSome = true := by
  have he := two_zpow_pos e
  have hten := ten_zpow_pos p
  generalize hv : (m : ℚ) * 2 ^ e = v at hp
  have hvpos : 0 < v := hv ▸ mantissa_pos hm e
  have hspacing : (10 : ℚ) ^ p * 10 ^ 16 ≤ v := by
    rw [zpow_add₀ (by norm_num)] at hp
    exact_mod_cast hp
  have hfloor := Nat.floor_le (div_pos hvpos hten).le
  have hlt := Nat.lt_floor_add_one (v / 10 ^ p)
  generalize hcount : ⌊v / 10 ^ p⌋₊ = c at hfloor hlt
  have hfloor : (c : ℚ) * 10 ^ p ≤ v := (le_div_iff₀ hten).mp hfloor
  have hlt : v < ((c + 1 : ℕ) : ℚ) * 10 ^ p := by
    push_cast
    exact (div_lt_iff₀ hten).mp hlt
  have hnext : (((c + 1 : ℕ) : ℚ)) * 10 ^ p = c * 10 ^ p + 10 ^ p := by
    push_cast
    ring
  have hvalue := value_ofFinite m e
  rw [hv] at hvalue
  refine candidate?_isSome (hvalue ▸ hfloor) (hvalue ▸ hlt) ?_
  have hlow := low_ofFinite (e := e) hm
  have hhigh := high_ofFinite m e
  rw [sub_mul, hv] at hlow
  rw [add_mul, hv] at hhigh
  by_cases hnarrow : m = 2 ^ 52 ∧ -1074 < e
  · right
    rw [if_pos hnarrow] at hlow
    have hv' : v = 2 ^ 52 * 2 ^ e := by
      rw [← hv, hnarrow.1]
      push_cast
      rfl
    apply contains_of_lt <;> linarith
  · rw [if_neg hnarrow] at hlow
    have hbound : v < 2 ^ 53 * 2 ^ e := by
      rw [← hv]
      exact mul_lt_mul_of_pos_right (by exact_mod_cast hc.fits) he
    by_cases hnear : v - c * 10 ^ p < 1 / 2 * 2 ^ e
    · left
      apply contains_of_lt <;> linarith
    · right
      apply contains_of_lt <;> linarith

end Finite

/-- Whatever the search finds lies in the interval, provided that the candidate with the most digits
does. -/
theorem search_contained {top : ℤ} (hlast : (i.candidate? (top - 16)).isSome = true) (fuel : ℕ) :
    i.Contains (i.search top fuel).toRat := by
  induction fuel with
  | zero =>
    obtain ⟨d, hd⟩ := Option.isSome_iff_exists.mp hlast
    unfold search
    rw [hd]
    exact candidate?_contained hd
  | succ fuel ih =>
    unfold search
    split
    · exact candidate?_contained ‹_›
    · exact ih

end Interval

/-- Zeros at the end of the digits count for nothing. -/
theorem toRat_trimmed (fuel : ℕ) (d : Decimal) : (trimmed fuel d).toRat = d.toRat := by
  induction fuel generalizing d with
  | zero => rfl
  | succ fuel ih =>
    unfold trimmed
    split_ifs with hzero
    · rw [ih, toRat, toRat, zpow_add_one₀ (by norm_num)]
      have : (d.digits : ℚ) = 10 * (d.digits / 10 : ℕ) := by
        exact_mod_cast (Nat.mul_div_cancel' (Nat.dvd_of_mod_eq_zero hzero.2)).symm
      rw [this]
      ring
    · rfl

/-- Eight places more than the estimate by binary digits are enough for every float. -/
theorem two_pow_le_estimate :
    ∀ k < 1100, 2 ^ (k + 2) ≤ 10 ^ (k * 30102 / 100000 + 8) := by
  decide +kernel

section Magnitude
variable {r : Ratio} (hr : 0 < r.den)
include hr

/-- The leading place is found if it is no further down than the search goes. -/
theorem leadingPlace_le {fuel j : ℕ} (h : 1 ≤ r.toRat * 10 ^ (j + fuel)) :
    1 ≤ r.toRat * 10 ^ leadingPlace r fuel j := by
  induction fuel generalizing j with
  | zero => exact h
  | succ fuel ih =>
    unfold leadingPlace
    split_ifs with hfound
    · rw [Nat.pow_eq] at hfound
      have : (r.den : ℚ) ≤ r.num * 10 ^ j := by exact_mod_cast hfound
      rw [Ratio.toRat, div_mul_eq_mul_div]
      exact (one_le_div (Nat.cast_pos.mpr hr)).mpr this
    · exact ih (by rwa [Nat.add_assoc, Nat.add_comm 1])

/-- The estimate from the lengths in bits, with eight places to spare, is far enough down. -/
theorem estimate_suffices (hnum : 0 < r.num) (hrange : r.den.log2 < 1100) :
    1 ≤ r.toRat * 10 ^ ((r.den.log2 - r.num.log2 - 1) * 30102 / 100000 + 8) := by
  have hden : r.den < 2 ^ (r.den.log2 + 1) := Nat.lt_log2_self
  have hlog : 2 ^ r.num.log2 ≤ r.num := Nat.log2_self_le hnum.ne'
  generalize hk : r.den.log2 - r.num.log2 - 1 = k
  have hscaled : r.den ≤ r.num * 10 ^ (k * 30102 / 100000 + 8) := by
    calc r.den ≤ 2 ^ (r.den.log2 + 1) := hden.le
      _ ≤ 2 ^ (r.num.log2 + (k + 2)) := Nat.pow_le_pow_right (by decide) (by omega)
      _ = 2 ^ r.num.log2 * 2 ^ (k + 2) := pow_add 2 _ _
      _ ≤ r.num * 10 ^ (k * 30102 / 100000 + 8) :=
        Nat.mul_le_mul hlog (two_pow_le_estimate k (by omega))
  rw [Ratio.toRat, div_mul_eq_mul_div]
  exact (one_le_div (Nat.cast_pos.mpr hr)).mpr (by exact_mod_cast hscaled)

/-- The power of ten of the leading digit is at most the number. -/
theorem ten_zpow_magnitude_le (hnum : 0 < r.num) (hrange : r.den.log2 < 1100) :
    (10 : ℚ) ^ magnitude r ≤ r.toRat := by
  unfold magnitude
  split_ifs with hone
  · have hquotient : 0 < r.num / r.den := Nat.div_pos hone hr
    have hlength : 0 < (Nat.toDigits 10 (r.num / r.den)).length := Nat.length_toDigits_pos
    have hpower : 10 ^ ((Nat.toDigits 10 (r.num / r.den)).length - 1) ≤ r.num / r.den := by
      rcases Nat.eq_zero_or_pos ((Nat.toDigits 10 (r.num / r.den)).length - 1) with h | h
      · rw [h]
        exact hquotient
      · apply Nat.le_of_not_lt
        rw [← Nat.length_toDigits_le_iff (by decide) h]
        omega
    calc (10 : ℚ) ^ (((Nat.toDigits 10 (r.num / r.den)).length : ℤ) - 1)
        = ((10 ^ ((Nat.toDigits 10 (r.num / r.den)).length - 1) : ℕ) : ℚ) := by
          rw [← Nat.cast_one, ← Nat.cast_sub hlength, zpow_natCast]
          push_cast
          rfl
      _ ≤ (r.num / r.den : ℕ) := Nat.cast_le.mpr hpower
      _ ≤ r.toRat := Nat.cast_div_le
  · have hplace := leadingPlace_le hr (estimate_suffices hr hnum hrange)
    rw [Int.negOfNat_eq, Int.ofNat_eq_natCast, zpow_neg, zpow_natCast]
    exact (inv_le_iff_one_le_mul₀ (by positivity)).mpr hplace

end Magnitude

section Shortest
variable {m : ℕ} {e : ℤ} (hm : 0 < m) (hc : Canonical m e)
include hm hc

/-- The shortest decimal of a float rounds to the float. -/
theorem shortest_contained : (Interval.ofFinite m e).Contains (shortest m e).toRat := by
  unfold shortest
  rw [if_neg hm.ne']
  dsimp only
  rw [toRat_trimmed]
  apply Interval.search_contained
  apply Interval.seventeen_suffice hm hc
  have hlow := hc.low
  have hmagnitude := ten_zpow_magnitude_le
    (Ratio.ofDyadic_den_pos (Interval.ofFinite m e).value (Interval.ofFinite m e).exponent)
    (Ratio.ofDyadic_num_pos (by change 0 < 4 * m; omega) _) (Ratio.log2_ofDyadic_den_lt _ (by
      change -1100 < e - 2
      omega))
  rw [Ratio.toRat_ofDyadic, Interval.value_ofFinite] at hmagnitude
  rwa [sub_add_cancel]

theorem shortest_pos : 0 < (shortest m e).toRat :=
  (shortest_contained hm hc).pos hm

end Shortest
end Reconciliation.Decimal
