import Reconciliation.Proofs.Number.Arithmetic
import Reconciliation.Retry.Policy

/-!
Powers of floats that are at least one. Every product on the way is at least one and finite, or
infinite. As long as nothing overflows, a power is at most the power of the base made larger by
one rounding.
-/
namespace Reconciliation

open Float.Model Float.Model.UnpackedFloat

/-- The float is finite and at least one, or positive infinity. -/
inductive Grown (x : Float) : Prop where
  | finite (v : ℚ) (holds : Holds x v) (one_le : 1 ≤ v)
  | infinite (h : FloatParts.ofFloat x = .infinite false)

theorem unpack_one : (1.0 : Float).toModel.unpack = .finite .positive (2 ^ 52) (-52) (by decide) :=
  FloatParts.unpack_of_ofFloat (by decide) (by decide)

/-- A finite float that does not compare below one holds a number that is at least one. -/
theorem one_le_of_not_lt {x : Float} (hfinite : x.isFinite = true) (hlt : ¬ x < 1.0) :
    ∃ v, Holds x v ∧ 1 ≤ v := by
  have hparts := FloatParts.ofFloat_eq_ofUnpacked x
  have hcompare : ¬ x.toModel.unpack.lt (1.0 : Float).toModel.unpack = true := fun h =>
    hlt (decide_eq_true h)
  change x.toModel.unpack.isFinite = true at hfinite
  rw [unpack_one] at hcompare
  cases hu : x.toModel.unpack with
  | notANumber => rw [hu] at hfinite; cases hfinite
  | infinity s => rw [hu] at hfinite; cases hfinite
  | zero s => rw [hu] at hcompare; exact absurd rfl hcompare
  | finite s m e hm =>
    rw [hu] at hcompare hparts
    cases s with
    | negative => exact absurd rfl hcompare
    | positive =>
      have hc := FloatParts.canonical_of_ofFloat hparts
      refine ⟨m * 2 ^ e, ⟨m, e, hparts, rfl⟩, ?_⟩
      have hexponent : ¬ e < -52 := fun h => hcompare (by
        simp only [UnpackedFloat.lt, UnpackedFloat.compare, Int.compare_eq_lt.mpr h]
        rfl)
      have hmantissa : 2 ^ 52 ≤ m := Nat.le_of_not_lt fun h => by
        have := hc.normal h
        omega
      calc (1 : ℚ) = (2 ^ 52 : ℕ) * 2 ^ (-52 : ℤ) := by
            rw [zpow_neg]
            norm_num
        _ ≤ m * 2 ^ e := mul_le_mul (Nat.cast_le.mpr hmantissa)
          (zpow_le_zpow_right₀ (by norm_num) (by omega)) (two_zpow_pos _).le (Nat.cast_nonneg m)

theorem ofFloat_infinite_mul {x y : Float} {s : UnpackedFloat}
    (hx : FloatParts.ofFloat x = .infinite false) (hy : y.toModel.unpack = s)
    (hs : UnpackedFloat.mul Format.binary64 (.infinity .positive) s = .infinity .positive) :
    FloatParts.ofFloat (x * y) = .infinite false := by
  change FloatParts.ofFloat ⟨Float.Model.pack (UnpackedFloat.mul Format.binary64
    x.toModel.unpack y.toModel.unpack)⟩ = _
  rw [FloatParts.unpack_of_ofFloat_infinite hx, hy, hs]
  decide

theorem ofFloat_mul_infinite {x y : Float} {s : UnpackedFloat} (hx : x.toModel.unpack = s)
    (hy : FloatParts.ofFloat y = .infinite false)
    (hs : UnpackedFloat.mul Format.binary64 s (.infinity .positive) = .infinity .positive) :
    FloatParts.ofFloat (x * y) = .infinite false := by
  change FloatParts.ofFloat ⟨Float.Model.pack (UnpackedFloat.mul Format.binary64
    x.toModel.unpack y.toModel.unpack)⟩ = _
  rw [FloatParts.unpack_of_ofFloat_infinite hy, hx, hs]
  decide

/-- A product of two factors that are at least one, or infinite, is such a factor too. -/
theorem Grown.mul {x y : Float} (hx : Grown x) (hy : Grown y) : Grown (x * y) := by
  cases hx with
  | finite a ha haone =>
    cases hy with
    | finite b hb hbone =>
      have hone : 1 ≤ a * b := one_le_mul_of_one_le_of_one_le haone hbone
      rw [mul_eq_roundedFloat ha hb (one_pos.trans_le haone) (one_pos.trans_le hbone)]
      rcases holds_or_infinite (one_pos.trans_le hone) with h | h
      · exact .finite _ h (one_le_units_mul hone)
      · exact .infinite h
    | infinite h =>
      obtain ⟨m, e, hm, hu, -⟩ := ha.unpack (one_pos.trans_le haone)
      refine .infinite ?_
      exact ofFloat_mul_infinite hu h rfl
  | infinite h =>
    cases hy with
    | finite b hb hbone =>
      obtain ⟨m, e, hm, hu, -⟩ := hb.unpack (one_pos.trans_le hbone)
      exact .infinite (ofFloat_infinite_mul h hu rfl)
    | infinite h' =>
      exact .infinite (ofFloat_infinite_mul h (FloatParts.unpack_of_ofFloat_infinite h') rfl)

/-- The result with the base multiplied in where the last bit of the exponent is set. -/
def multiplied (r a : Float) (b : ℕ) : Float := if b % 2 = 1 then r * a else r

theorem power_go_succ (fuel : ℕ) (r a : Float) (b : ℕ) :
    floatPower.go (fuel + 1) r a b = if b / 2 = 0 then multiplied r a b
      else floatPower.go fuel (multiplied r a b) (a * a) (b / 2) := rfl

theorem Grown.multiplied {r a : Float} (hr : Grown r) (ha : Grown a) (b : ℕ) :
    Grown (multiplied r a b) := by
  unfold Reconciliation.multiplied
  split_ifs
  · exact hr.mul ha
  · exact hr

theorem Grown.power_go (fuel : ℕ) : ∀ {r a : Float} (b : ℕ), Grown r → Grown a →
    Grown (floatPower.go fuel r a b) := by
  induction fuel with
  | zero => exact fun b hr ha => hr.multiplied ha b
  | succ fuel ih =>
    intro r a b hr ha
    rw [power_go_succ]
    split_ifs with hlast
    · exact hr.multiplied ha b
    · exact ih _ (hr.multiplied ha b) (ha.mul ha)

theorem holds_one : Holds 1.0 1 := by
  refine ⟨2 ^ 52, -52, by decide, ?_⟩
  rw [zpow_neg]
  norm_num

theorem Grown.power {a : Float} (ha : Grown a) (b : ℕ) : Grown (floatPower a b) :=
  Grown.power_go _ b (.finite 1 holds_one le_rfl) ha

/-- A product of numbers of at least one that stays small grows by one rounding at most. -/
theorem holds_mul {x y : Float} {a b : ℚ} (hx : Holds x a) (hy : Holds y b) (ha : 1 ≤ a)
    (hb : 1 ≤ b) (hsmall : a * b ≤ 2 ^ 1000) :
    ∃ w, Holds (x * y) w ∧ 1 ≤ w ∧ w ≤ a * b * (1 + roundoff) := by
  have hone : 1 ≤ a * b := one_le_mul_of_one_le_of_one_le ha hb
  have hlow : (2 : ℚ) ^ (-1022 : ℤ) ≤ a * b :=
    (zpow_le_one_of_nonpos₀ (by norm_num) (by norm_num)).trans hone
  have hhigh : a * b < 2 ^ (1023 : ℤ) := by
    refine lt_of_le_of_lt hsmall ?_
    rw [← zpow_natCast]
    exact zpow_lt_zpow_right₀ (by norm_num) (by norm_num)
  rw [mul_eq_roundedFloat hx hy (one_pos.trans_le ha) (one_pos.trans_le hb)]
  obtain ⟨w, hw, -, hle⟩ := roundedFloat_near hlow hhigh
  refine ⟨w, hw, ?_, hle⟩
  have hq : quantum (a * b) ≤ 970 :=
    quantum_le (one_pos.trans_le hone) hhigh (by norm_num)
  have hw' := holds_roundedFloat (one_pos.trans_le hone) hq
  rw [hw.unique hw']
  exact one_le_units_mul hone

theorem le_of_roundoff_le {α β : ℚ} (hα : 1 ≤ α) (hβ : α * (1 + roundoff) ≤ β) : α ≤ β :=
  (le_mul_of_one_le_right (zero_le_one.trans hα) (by linarith [roundoff_pos])).trans hβ

section Bits
variable {r a : Float} {b : ℕ} {ρ α R β : ℚ} (hr : Holds r ρ) (hρ : 1 ≤ ρ) (hR : ρ ≤ R)
  (ha : Holds a α) (hα : 1 ≤ α) (hβ : α * (1 + roundoff) ≤ β) (hsmall : R * β ^ b ≤ 2 ^ 1000)
include hr hρ hR ha hα hβ hsmall

/-- The factor of an odd exponent is taken into the result. -/
theorem holds_multiplied :
    ∃ w, Holds (multiplied r a b) w ∧ 1 ≤ w ∧ w ≤ R * β ^ (b % 2) := by
  have hu := roundoff_pos
  have hαβ := le_of_roundoff_le hα hβ
  unfold multiplied
  split_ifs with hodd
  · have hproduct : ρ * α ≤ R * β := mul_le_mul hR hαβ (by linarith) (by linarith)
    have hpower : R * β ≤ R * β ^ b :=
      mul_le_mul_of_nonneg_left (le_self_pow₀ (by linarith) (by omega)) (by linarith)
    obtain ⟨w, hw, hone, hle⟩ := holds_mul hr ha hρ hα ((hproduct.trans hpower).trans hsmall)
    refine ⟨w, hw, hone, hle.trans ?_⟩
    rw [hodd, pow_one, mul_assoc]
    exact mul_le_mul hR hβ (by positivity) (by linarith)
  · have heven : b % 2 = 0 := by omega
    rw [heven, pow_zero, mul_one]
    exact ⟨ρ, hr, hρ, hR⟩

omit hr in
/-- Squaring leaves room for the rounding of the next product. -/
theorem holds_squared (hb : 2 ≤ b) :
    ∃ w, Holds (a * a) w ∧ 1 ≤ w ∧ w * (1 + roundoff) ≤ β ^ 2 := by
  have hu := roundoff_pos
  have hαβ := le_of_roundoff_le hα hβ
  have hβ1 : 1 ≤ β := hα.trans hαβ
  have hsquare : α * α ≤ 2 ^ 1000 := by
    calc α * α ≤ β * β := mul_le_mul hαβ hαβ (by linarith) (by linarith)
      _ = β ^ 2 := (pow_two β).symm
      _ ≤ β ^ b := pow_le_pow_right₀ hβ1 hb
      _ ≤ R * β ^ b := le_mul_of_one_le_left (by positivity) (hρ.trans hR)
      _ ≤ 2 ^ 1000 := hsmall
  obtain ⟨w, hw, hone, hle⟩ := holds_mul ha ha hα hα hsquare
  refine ⟨w, hw, hone, ?_⟩
  calc w * (1 + roundoff) ≤ α * α * (1 + roundoff) * (1 + roundoff) :=
        mul_le_mul_of_nonneg_right hle (by linarith)
    _ = (α * (1 + roundoff)) ^ 2 := by ring
    _ ≤ β ^ 2 := pow_le_pow_left₀ (by positivity) hβ 2

end Bits

/-- Over the bits of the exponent: the result so far is at most `R`, the base with one rounding
more at most `β`, and the squarings keep that, since two roundings of the base pay for one of the
square. -/
theorem power_go_le (fuel : ℕ) : ∀ {r a : Float} {b : ℕ} {ρ α R β : ℚ}, Holds r ρ → 1 ≤ ρ →
    ρ ≤ R → Holds a α → 1 ≤ α → α * (1 + roundoff) ≤ β → b < 2 ^ (fuel + 1) →
    R * β ^ b ≤ 2 ^ 1000 →
    ∃ w, Holds (floatPower.go fuel r a b) w ∧ 1 ≤ w ∧ w ≤ R * β ^ b := by
  induction fuel with
  | zero =>
    intro r a b ρ α R β hr hρ hR ha hα hβ hb hsmall
    obtain ⟨w, hw, hone, hle⟩ := holds_multiplied hr hρ hR ha hα hβ hsmall
    have hbit : b % 2 = b := Nat.mod_eq_of_lt (by omega)
    rw [hbit] at hle
    exact ⟨w, hw, hone, hle⟩
  | succ fuel ih =>
    intro r a b ρ α R β hr hρ hR ha hα hβ hb hsmall
    obtain ⟨w, hw, hone, hle⟩ := holds_multiplied hr hρ hR ha hα hβ hsmall
    have hsplit : R * β ^ (b % 2) * (β ^ 2) ^ (b / 2) = R * β ^ b := by
      rw [mul_assoc, ← pow_mul, ← pow_add, Nat.mod_add_div]
    rw [power_go_succ]
    split_ifs with hlast
    · rw [hlast, pow_zero, mul_one] at hsplit
      exact ⟨w, hw, hone, hsplit ▸ hle⟩
    · obtain ⟨α', ha', hα', hβ'⟩ := holds_squared hρ hR ha hα hβ hsmall (by omega)
      have hhalf : b / 2 < 2 ^ (fuel + 1) := by
        rw [pow_succ] at hb
        omega
      rw [← hsplit] at hsmall ⊢
      exact ih hw hone hle ha' hα' hβ' hhalf hsmall

theorem power_le {a : Float} {α : ℚ} (ha : Holds a α) (hα : 1 ≤ α) (b : ℕ)
    (hsmall : (α * (1 + roundoff)) ^ b ≤ 2 ^ 1000) :
    ∃ w, Holds (floatPower a b) w ∧ 1 ≤ w ∧ w ≤ (α * (1 + roundoff)) ^ b := by
  have := power_go_le b.log2 holds_one le_rfl le_rfl ha hα le_rfl (b := b) Nat.lt_log2_self
  rw [one_mul] at this
  exact this hsmall

/-- Over all exponents that occur the roundings together stay below a millionth. -/
theorem one_add_roundoff_pow_le {b : ℕ} (hb : b ≤ 2 ^ 32) :
    (1 + roundoff) ^ b ≤ 1 + 1 / 2 ^ 20 := by
  have hu := roundoff_pos
  have hu1 := roundoff_lt_one
  have hbernoulli : 1 + (b : ℚ) * (-roundoff) ≤ (1 + -roundoff) ^ b :=
    one_add_mul_le_pow (by linarith) b
  have hb' : (b : ℚ) * roundoff ≤ 1 / 2 ^ 21 := by
    have : (b : ℚ) ≤ 2 ^ 32 := by exact_mod_cast hb
    calc (b : ℚ) * roundoff ≤ 2 ^ 32 * roundoff := mul_le_mul_of_nonneg_right this hu.le
      _ = 1 / 2 ^ 21 := by unfold roundoff; norm_num
  have hproduct : (1 + roundoff) ^ b * (1 + -roundoff) ^ b ≤ 1 := by
    rw [← mul_pow]
    exact pow_le_one₀ (by nlinarith) (by nlinarith)
  have hpos : 0 < (1 + roundoff) ^ b := by positivity
  have : (1 + roundoff) ^ b * (1 - 1 / 2 ^ 21) ≤ 1 :=
    (mul_le_mul_of_nonneg_left (by linarith) hpos.le).trans hproduct
  linarith

end Reconciliation
