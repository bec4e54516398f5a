import Reconciliation.Proofs.Number.Scientific
import Reconciliation.Proofs.Number.Power
import Reconciliation.Proofs.Settings.Validation
import Reconciliation.Settings.Basic

/-!
Backoff against exact arithmetic. As long as the exact delay is at most half of the cap, the
computed one stays below the cap. Where the initial interval is zero, the delay is zero until the
computed power overflows, and the cap from then on, since zero times infinity is no number.
-/
namespace Reconciliation

open Float.Model Float.Model.UnpackedFloat

theorem ten_to_nine : Holds 1e9 (10 ^ 9) := by
  refine ⟨8388608000000000, -23, by decide, ?_⟩
  rw [zpow_neg]
  norm_num

theorem zero_toFloat : FloatParts.ofFloat (Nat.toUInt64 0).toFloat = .finite false 0 (-1074) := by
  decide

theorem zero_add_float {x y : Float} {v : ℚ} (hx : FloatParts.ofFloat x = .finite false 0 (-1074))
    (hy : Holds y v) (hv : 0 < v) : Holds (x + y) v := by
  obtain ⟨m, e, hm, hu, rfl, hc⟩ := hy.unpack hv
  refine ⟨m, e, ?_, rfl⟩
  change FloatParts.ofFloat ⟨Float.Model.pack (UnpackedFloat.add Format.binary64
    x.toModel.unpack y.toModel.unpack)⟩ = _
  rw [FloatParts.unpack_of_ofFloat_zero hx, hu]
  exact FloatParts.ofFloat_pack_finite (s := .positive) hm hc

theorem add_zero_float {x y : Float} {v : ℚ} (hx : Holds x v) (hv : 0 < v)
    (hy : FloatParts.ofFloat y = .finite false 0 (-1074)) : Holds (x + y) v := by
  obtain ⟨m, e, hm, hu, rfl, hc⟩ := hx.unpack hv
  refine ⟨m, e, ?_, rfl⟩
  change FloatParts.ofFloat ⟨Float.Model.pack (UnpackedFloat.add Format.binary64
    x.toModel.unpack y.toModel.unpack)⟩ = _
  rw [FloatParts.unpack_of_ofFloat_zero hy, hu]
  exact FloatParts.ofFloat_pack_finite (s := .positive) hm hc

theorem within_toFloat {n : ℕ} (hn : 0 < n) (hfits : n < 2 ^ 64) :
    ∃ w, Holds n.toUInt64.toFloat w ∧ Within 1 n w := by
  have hone : (1 : ℚ) ≤ n := by exact_mod_cast hn
  have hlarge : (n : ℚ) < 2 ^ 64 := by exact_mod_cast hfits
  rw [toFloat_eq_roundedFloat hn hfits]
  exact within_roundedFloat (by linarith) (by linarith)

namespace Span

theorem within_subsecond {n : ℕ} (hn : 0 < n) (hfits : n < 10 ^ 9) :
    ∃ w, Holds (n.toUInt64.toFloat / 1e9) w ∧ Within 2 (n / 10 ^ 9) w := by
  obtain ⟨v, hv, hnear⟩ := within_toFloat hn (by omega)
  have hone : (1 : ℚ) ≤ n := by exact_mod_cast hn
  have hsmall : (n : ℚ) < 10 ^ 9 := by exact_mod_cast hfits
  obtain ⟨hvlow, hvhigh⟩ := hnear.halved_doubled (by linarith) (by omega)
  rw [div_eq_roundedFloat hv ten_to_nine (by linarith) (by norm_num)]
  obtain ⟨w, hw, hnear'⟩ : ∃ w, Holds (roundedFloat (v / 10 ^ 9)) w ∧ Within 1 (v / 10 ^ 9) w :=
    within_roundedFloat (by linarith) (by linarith)
  exact ⟨w, hw, (hnear.div (by norm_num)).trans hnear'⟩

theorem toSeconds_zero : FloatParts.ofFloat (toSeconds ⟨0⟩) = .finite false 0 (-1074) := by
  decide

/-- A positive span in seconds is off by three roundings at most. -/
theorem within_toSeconds {s : Span} (hs : 0 < s.nanos) (hfits : s.nanos < 2 ^ 64 * 10 ^ 9) :
    ∃ w, Holds s.toSeconds w ∧ Within 3 (s.nanos / 10 ^ 9) w := by
  have hdefs : s.seconds = s.nanos / 10 ^ 9 ∧ s.subsecond = s.nanos % 10 ^ 9 := ⟨rfl, rfl⟩
  have hsum : (s.nanos : ℚ) / 10 ^ 9 = s.seconds + s.subsecond / 10 ^ 9 := by
    have : s.nanos = 10 ^ 9 * s.seconds + s.subsecond := by omega
    rw [this]
    push_cast
    ring
  have hsub : s.subsecond < 10 ^ 9 := by omega
  have hsec : s.seconds < 2 ^ 64 := by omega
  have hsubQ : (s.subsecond : ℚ) < 10 ^ 9 := by exact_mod_cast hsub
  have hsecQ : (s.seconds : ℚ) < 2 ^ 64 := by exact_mod_cast hsec
  rw [hsum]
  unfold toSeconds
  rcases Nat.eq_zero_or_pos s.seconds with hzero | hpos
  · have hpos : 0 < s.subsecond := by omega
    have hone : (1 : ℚ) ≤ s.subsecond := by exact_mod_cast hpos
    obtain ⟨w, hw, hnear⟩ := within_subsecond hpos hsub
    obtain ⟨hwlow, -⟩ := hnear.halved_doubled (by positivity) (by omega)
    rw [hzero, Nat.cast_zero, zero_add]
    exact ⟨w, zero_add_float zero_toFloat hw (by linarith), hnear.mono (by positivity) (by omega)⟩
  have hone : (1 : ℚ) ≤ s.seconds := by exact_mod_cast hpos
  obtain ⟨v, hv, hvnear⟩ := within_toFloat hpos hsec
  obtain ⟨hvlow, hvhigh⟩ := hvnear.halved_doubled (by positivity) (by omega)
  rcases Nat.eq_zero_or_pos s.subsecond with hzero | hsubpos
  · rw [hzero, Nat.cast_zero, zero_div, add_zero]
    exact ⟨v, add_zero_float hv (by linarith) (by decide),
      hvnear.mono (by positivity) (by omega)⟩
  · have hsubone : (1 : ℚ) ≤ s.subsecond := by exact_mod_cast hsubpos
    obtain ⟨w, hw, hwnear⟩ := within_subsecond hsubpos hsub
    obtain ⟨hwlow, hwhigh⟩ := hwnear.halved_doubled (by positivity) (by omega)
    rw [add_eq_roundedFloat hv hw (by linarith) (by linarith)]
    obtain ⟨z, hz, hznear⟩ : ∃ z, Holds (roundedFloat (v + w)) z ∧ Within 1 (v + w) z :=
      within_roundedFloat (by linarith) (by linarith)
    have hsumnear := (hvnear.mono (by positivity) (by omega : 1 ≤ 2)).add hwnear
    exact ⟨z, hz, hsumnear.trans hznear⟩

/-- Of the two nanoseconds around a number of seconds the nearest one is taken. -/
theorem ofSeconds?_lt {x : Float} {v : ℚ} {bound : ℕ} (hx : Holds x v)
    (hv : v * 10 ^ 9 + 1 / 2 < bound) (hbound : bound ≤ 2 ^ 64 * 10 ^ 9) :
    ∃ d, ofSeconds? x = some d ∧ d.nanos < bound := by
  obtain ⟨m, e, hparts, rfl⟩ := hx
  generalize hr : Decimal.Ratio.ofDyadic (m * nanosPerSecond) e = r
  have hden : 0 < r.den := hr ▸ Decimal.Ratio.ofDyadic_den_pos _ _
  have hvalue : (r.num : ℚ) / r.den = m * 2 ^ e * 10 ^ 9 := by
    have := Decimal.Ratio.toRat_ofDyadic (m * nanosPerSecond) e
    rw [hr] at this
    rw [← Decimal.Ratio.toRat, this]
    push_cast [nanosPerSecond]
    ring
  have hdenQ : (0 : ℚ) < r.den := Nat.cast_pos.mpr hden
  have hsplit : (r.num : ℚ) = r.den * (r.num / r.den : ℕ) + (r.num % r.den : ℕ) := by
    exact_mod_cast (Nat.div_add_mod r.num r.den).symm
  generalize hnanos : (if (2 * (r.num % r.den) < r.den ||
    (2 * (r.num % r.den) = r.den && r.num / r.den % 2 = 0) : Bool) then r.num / r.den
      else r.num / r.den + 1) = nanos
  have hnear : (nanos : ℚ) ≤ r.num / r.den + 1 / 2 := by
    rw [← sub_le_iff_le_add, le_div_iff₀ hdenQ]
    have hrest : (0 : ℚ) ≤ (r.num % r.den : ℕ) := Nat.cast_nonneg _
    rw [← hnanos]
    split_ifs with hdown
    · linarith
    · have hup : r.den ≤ 2 * (r.num % r.den) := by
        simp only [Bool.or_eq_true, decide_eq_true_eq, not_or, not_lt] at hdown
        exact hdown.1
      have hup : (r.den : ℚ) ≤ 2 * (r.num % r.den : ℕ) := by exact_mod_cast hup
      push_cast at hup ⊢
      linarith
  have hlt : nanos < bound := by
    rw [hvalue] at hnear
    exact_mod_cast hnear.trans_lt hv
  refine ⟨⟨nanos⟩, ?_, hlt⟩
  unfold ofSeconds?
  rw [hparts]
  dsimp only
  rw [hr, hnanos, Bool.false_and, if_neg (by decide), if_pos]
  exact hlt.trans_le hbound

end Span

namespace RetryPolicy
variable {p : RetryPolicy} {attempt : UInt32} {μ : ℚ}

/-- The exponent of the power before an attempt. -/
def growth (attempt : UInt32) : ℕ := min (attempt.toNat - 1) maxExponent

theorem growth_le (attempt : UInt32) : growth attempt ≤ 2 ^ 31 - 1 := min_le_right _ _

theorem delayFor_eq (p : RetryPolicy) (attempt : UInt32) :
    p.delayFor attempt =
      match Span.ofSeconds? (p.initialInterval.toSeconds * floatPower p.multiplier
        (growth attempt)) with
      | some delay => min delay p.cap
      | none => p.cap := rfl

/-- A power that is far from overflow exceeds the exact one by its roundings at most. -/
theorem power_small (attempt : UInt32) (hμ : Holds p.multiplier μ) (hone : 1 ≤ μ) {c : ℚ}
    (hc : c ≤ 2 ^ 999) (hexact : μ ^ (attempt.toNat - 1) ≤ c) :
    ∃ w, Holds (floatPower p.multiplier (growth attempt)) w ∧ 1 ≤ w ∧
      w ≤ μ ^ (attempt.toNat - 1) * (1 + roundoff) ^ growth attempt := by
  have hu := roundoff_pos
  have hle : (μ * (1 + roundoff)) ^ growth attempt ≤
      μ ^ (attempt.toNat - 1) * (1 + roundoff) ^ growth attempt := by
    rw [mul_pow]
    exact mul_le_mul_of_nonneg_right (pow_le_pow_right₀ hone (min_le_left _ _)) (by positivity)
  have hsmall : (μ * (1 + roundoff)) ^ growth attempt ≤ 2 ^ 1000 := by
    have := growth_le attempt
    calc (μ * (1 + roundoff)) ^ growth attempt
        ≤ μ ^ (attempt.toNat - 1) * (1 + roundoff) ^ growth attempt := hle
      _ ≤ 2 ^ 999 * (1 + 1 / 2 ^ 20) :=
        mul_le_mul (hexact.trans hc) (one_add_roundoff_pow_le (by omega)) (by positivity)
          (by positivity)
      _ ≤ 2 ^ 999 * 2 := mul_le_mul_of_nonneg_left (by norm_num) (by positivity)
      _ = 2 ^ 1000 := (pow_succ 2 999).symm
  obtain ⟨w, hw, hw1, hwle⟩ := power_le hμ hone _ hsmall
  exact ⟨w, hw, hw1, hwle.trans hle⟩

/-- The errors of the interval in seconds, of the power and of their product add up. -/
theorem seconds_mul_power_le {n power half t w : ℚ} {k : ℕ}
    (ht : t ≤ n / 10 ^ 9 * (1 + roundoff) ^ 3) (hw0 : 0 ≤ w) (hw : w ≤ power * (1 + roundoff) ^ k)
    (hn : 0 ≤ n) (hexact : n * power ≤ half) :
    t * w ≤ half / 10 ^ 9 * (1 + roundoff) ^ (k + 3) := by
  have hu := roundoff_pos
  calc t * w ≤ n / 10 ^ 9 * (1 + roundoff) ^ 3 * (power * (1 + roundoff) ^ k) :=
        mul_le_mul ht hw hw0 (by positivity)
    _ = n * power / 10 ^ 9 * (1 + roundoff) ^ (k + 3) := by
      rw [pow_add]
      ring
    _ ≤ half / 10 ^ 9 * (1 + roundoff) ^ (k + 3) :=
      mul_le_mul_of_nonneg_right (div_le_div_of_nonneg_right hexact (by norm_num)) (by positivity)

/-- For a positive initial interval. The roundings of the power and of the product add far less than
the other half of the cap. -/
theorem delayFor_lt (hμ : Holds p.multiplier μ) (hone : 1 ≤ μ)
    (hinitial : 0 < p.initialInterval.nanos) (hcap : 2 ≤ p.cap.nanos)
    (hfits : p.cap.nanos ≤ 2 ^ 64 * 10 ^ 9)
    (hexact : p.initialInterval.nanos * μ ^ (attempt.toNat - 1) ≤ p.cap.nanos / 2) :
    p.delayFor attempt < p.cap := by
  have hu := roundoff_pos
  have hgrowth := growth_le attempt
  generalize hn : p.initialInterval.nanos = n at hinitial hexact
  have hn1 : (1 : ℚ) ≤ n := by exact_mod_cast hinitial
  have hpower : 1 ≤ μ ^ (attempt.toNat - 1) := one_le_pow₀ hone
  have hcapQ : (p.cap.nanos : ℚ) ≤ 2 ^ 64 * 10 ^ 9 := by exact_mod_cast hfits
  have hcap2 : (2 : ℚ) ≤ p.cap.nanos := by exact_mod_cast hcap
  have hnle : (n : ℚ) ≤ p.cap.nanos / 2 :=
    (le_mul_of_one_le_right (by linarith) hpower).trans hexact
  have hnfits : n < 2 ^ 64 * 10 ^ 9 := by
    have : (n : ℚ) < (2 ^ 64 * 10 ^ 9 : ℕ) := by
      push_cast
      linarith
    exact_mod_cast this
  obtain ⟨w, hw, hw1, hwle⟩ := power_small attempt hμ hone (c := 2 ^ 94)
    (pow_le_pow_right₀ (by norm_num) (by norm_num))
    ((le_mul_of_one_le_left (by linarith) hn1).trans (hexact.trans (by linarith)))
  obtain ⟨t, ht, hnear⟩ := Span.within_toSeconds (by rwa [hn]) (by rwa [hn])
  rw [hn] at hnear
  obtain ⟨htlow, -⟩ := hnear.halved_doubled (by positivity) le_rfl
  have hproduct : t * w ≤ p.cap.nanos / 2 / 10 ^ 9 * (1 + roundoff) ^ (growth attempt + 3) :=
    seconds_mul_power_le hnear.high (by linarith) hwle (by linarith) hexact
  have hrounds : ∀ k, k ≤ 2 ^ 32 →
      p.cap.nanos / 2 / 10 ^ 9 * (1 + roundoff) ^ k ≤
        p.cap.nanos / 2 / 10 ^ 9 * (1 + 1 / 2 ^ 20) := fun k hk =>
    mul_le_mul_of_nonneg_left (one_add_roundoff_pow_le hk) (by positivity)
  have hlarge : t ≤ t * w := le_mul_of_one_le_right (by linarith) hw1
  have hsmall := hproduct.trans (hrounds _ (by omega))
  obtain ⟨x, hx, hxnear⟩ := within_roundedFloat (v := t * w) (by linarith) (by linarith)
  rw [← mul_eq_roundedFloat ht hw (by linarith) (by linarith)] at hx
  have hxle : x ≤ p.cap.nanos / 2 / 10 ^ 9 * (1 + 1 / 2 ^ 20) := by
    refine le_trans ?_ (hrounds (growth attempt + 4) (by omega))
    rw [pow_succ (1 + roundoff) (growth attempt + 3), ← mul_assoc]
    refine hxnear.high.trans ?_
    rw [pow_one]
    exact mul_le_mul_of_nonneg_right hproduct (by linarith)
  obtain ⟨d, hd, hdlt⟩ := Span.ofSeconds?_lt hx (by linarith) hfits
  rw [delayFor_eq, hd]
  exact lt_of_le_of_lt (min_le_left _ _) hdlt

/-- An initial interval of zero: no delay until the power overflows, and the cap from then on. -/
theorem delayFor_zero (hgrown : Grown p.multiplier) (hinitial : p.initialInterval = Span.zero)
    (attempt : UInt32) :
    p.delayFor attempt =
      if FloatParts.ofFloat (floatPower p.multiplier (growth attempt)) = .infinite false
      then p.cap else Span.zero := by
  have hzero := FloatParts.unpack_of_ofFloat_zero Span.toSeconds_zero
  rw [delayFor_eq, hinitial]
  cases hgrown.power (growth attempt) with
  | finite w hw hone =>
    obtain ⟨m, e, hm, hu, -⟩ := hw.unpack (one_pos.trans_le hone)
    obtain ⟨m', e', hparts, -⟩ := hw
    rw [if_neg (by rw [hparts]; exact nofun)]
    have hproduct : Span.zero.toSeconds * floatPower p.multiplier (growth attempt) = 0.0 := by
      change (⟨Float.Model.pack (UnpackedFloat.mul Format.binary64 _ _)⟩ : Float) = _
      rw [hu, Span.zero, hzero]
      have : (⟨Float.Model.pack (.zero .positive)⟩ : Float) = 0.0 := by decide
      exact this
    rw [hproduct]
    have hspan : Span.ofSeconds? 0.0 = some Span.zero := by decide +kernel
    rw [hspan]
    exact congrArg Span.mk (Nat.zero_min _)
  | infinite h =>
    rw [if_pos h]
    have hproduct : FloatParts.ofFloat
        (Span.zero.toSeconds * floatPower p.multiplier (growth attempt)) = .notANumber := by
      change FloatParts.ofFloat ⟨Float.Model.pack (UnpackedFloat.mul Format.binary64 _ _)⟩ = _
      rw [FloatParts.unpack_of_ofFloat_infinite h, Span.zero, hzero]
      decide
    unfold Span.ofSeconds?
    rw [hproduct]

theorem multiplier_of_ofSettings {s : RetrySettings} (h : ofSettings? s = some p) :
    p.multiplier = s.multiplier := by
  unfold ofSettings? at h
  split_ifs at h
  obtain rfl := Option.some.inj h
  rfl

theorem cap_of_ofSettings {s : RetrySettings} (h : ofSettings? s = some p) :
    p.cap = match s.maxIntervalMs with
      | some n => Span.ofMillis n.toNat
      | none => ceiling := by
  unfold ofSettings? at h
  split_ifs at h
  obtain rfl := Option.some.inj h
  unfold cap
  cases s.maxIntervalMs <;> rfl

theorem cap_bounds {s : RetrySettings} (h : ofSettings? s = some p) (hcap : Span.zero < p.cap) :
    2 ≤ p.cap.nanos ∧ p.cap.nanos ≤ 2 ^ 64 * 10 ^ 9 := by
  rw [cap_of_ofSettings h] at hcap ⊢
  cases hmax : s.maxIntervalMs with
  | none => exact ⟨by decide, by decide⟩
  | some n =>
    rw [hmax] at hcap
    have hn := n.toNat_lt
    change 0 < n.toNat * 1000000 at hcap
    change 2 ≤ n.toNat * 1000000 ∧ n.toNat * 1000000 ≤ 2 ^ 64 * 10 ^ 9
    omega

end RetryPolicy

namespace Settings
variable {s : Settings} {p : RetryPolicy}

theorem one_le_multiplier (h : s.validate = .ok ()) :
    ∃ μ, Holds s.retry.multiplier μ ∧ 1 ≤ μ := by
  have hrange := (valid_iff.mp h).multiplier
  unfold multiplierInRange at hrange
  rw [Bool.and_eq_true, Bool.not_eq_true', decide_eq_false_iff_not] at hrange
  exact one_le_of_not_lt hrange.1 hrange.2

/-- Backoff of validated settings against the exact delay, `μ` being the exact multiplier. After a
positive interval the delay is below the cap as long as the exact one is at most half of the cap.
Without an interval there is no delay until the computed power overflows, which it does not while
the exact power is at most `2 ^ 999`; from then on the delay is the cap. -/
theorem delay_below_cap (hvalid : s.validate = .ok ())
    (hpolicy : RetryPolicy.ofSettings? s.retry = some p) (hcap : Span.zero < p.cap) :
    ∃ μ, Holds p.multiplier μ ∧ 1 ≤ μ ∧ ∀ attempt : UInt32,
      (Span.zero < p.initialInterval →
        p.initialInterval.nanos * μ ^ (attempt.toNat - 1) ≤ p.cap.nanos / 2 →
        p.delayFor attempt < p.cap) ∧
      (p.initialInterval = Span.zero → p.delayFor attempt =
        if FloatParts.ofFloat (floatPower p.multiplier (RetryPolicy.growth attempt)) =
          .infinite false then p.cap else Span.zero) ∧
      (p.initialInterval = Span.zero → μ ^ (attempt.toNat - 1) ≤ 2 ^ 999 →
        p.delayFor attempt = Span.zero) := by
  obtain ⟨μ, hμ, hone⟩ := one_le_multiplier hvalid
  rw [← RetryPolicy.multiplier_of_ofSettings hpolicy] at hμ
  obtain ⟨hlow, hhigh⟩ := RetryPolicy.cap_bounds hpolicy hcap
  refine ⟨μ, hμ, hone, fun attempt => ⟨fun hinitial hexact => ?_, fun hinitial => ?_,
    fun hinitial hpower => ?_⟩⟩
  · exact RetryPolicy.delayFor_lt hμ hone hinitial hlow hhigh hexact
  · exact RetryPolicy.delayFor_zero (.finite μ hμ hone) hinitial attempt
  · obtain ⟨w, ⟨m, e, hparts, -⟩, -, -⟩ :=
      RetryPolicy.power_small attempt hμ hone le_rfl hpower
    rw [RetryPolicy.delayFor_zero (.finite μ hμ hone) hinitial attempt, if_neg]
    rw [hparts]
    exact nofun

/-- Settings whose retries start after a second and are a minute apart at most. -/
def gentle : Settings where
  kind := "WebApp"
  retry := { initialIntervalMs := 1000, multiplier := 2.0, maxIntervalMs := some 60000 }

def gentlePolicy : RetryPolicy where
  initialInterval := Span.ofMillis 1000
  multiplier := 2.0
  maxInterval := some (Span.ofMillis 60000)

/-- Settings whose retries start at once. -/
def immediate : Settings where
  kind := "WebApp"
  retry := { initialIntervalMs := 0, multiplier := 2.0 }

def immediatePolicy : RetryPolicy where
  initialInterval := Span.zero
  multiplier := 2.0

theorem immediate_valid : immediate.validate = .ok () :=
  valid_iff.mpr (violation?_eq_none_iff.mp (by decide))

theorem holds_two : Holds 2.0 2 := by
  refine ⟨2 ^ 52, -51, by decide, ?_⟩
  rw [zpow_neg]
  norm_num

/-- The exact delay before the fifth attempt is sixteen seconds, so the computed one is below a
minute. With no interval at all there is no delay, even before the thousandth attempt. -/
theorem delay_below_cap_gentle :
    (gentle.validate = .ok () ∧ RetryPolicy.ofSettings? gentle.retry = some gentlePolicy ∧
      Span.zero < gentlePolicy.initialInterval ∧ gentlePolicy.delayFor 5 < gentlePolicy.cap) ∧
    immediate.validate = .ok () ∧ RetryPolicy.ofSettings? immediate.retry = some immediatePolicy ∧
      Span.zero < immediatePolicy.cap ∧ immediatePolicy.delayFor 1000 = Span.zero := by
  constructor
  · have hvalid : gentle.validate = .ok () := valid_iff.mpr (violation?_eq_none_iff.mp (by decide))
    have hpolicy : RetryPolicy.ofSettings? gentle.retry = some gentlePolicy := by decide
    have hpositive : Span.zero < gentlePolicy.initialInterval := by decide
    obtain ⟨μ, hμ, -, h⟩ := delay_below_cap hvalid hpolicy (by decide)
    refine ⟨hvalid, hpolicy, hpositive, (h 5).1 hpositive ?_⟩
    rw [hμ.unique holds_two, show gentlePolicy.initialInterval.nanos = 10 ^ 9 from rfl,
      show gentlePolicy.cap.nanos = 60 * 10 ^ 9 from rfl, show UInt32.toNat 5 - 1 = 4 from rfl]
    norm_num
  · have hpolicy : RetryPolicy.ofSettings? immediate.retry = some immediatePolicy := by decide
    have hcap : Span.zero < immediatePolicy.cap := by decide
    obtain ⟨μ, hμ, -, h⟩ := delay_below_cap immediate_valid hpolicy hcap
    refine ⟨immediate_valid, hpolicy, hcap, (h 1000).2.2 rfl ?_⟩
    rw [hμ.unique holds_two]
    exact le_rfl

/-- No interval at all, multiplied by any power, is no interval; the delay is the cap. -/
theorem immediate_capped :
    immediate.validate = .ok () ∧ RetryPolicy.ofSettings? immediate.retry = some immediatePolicy ∧
      Span.zero < immediatePolicy.cap ∧ Holds immediatePolicy.multiplier 2 ∧
      (immediatePolicy.initialInterval.nanos : ℚ) * 2 ^ (1100 - 1) ≤
        immediatePolicy.cap.nanos / 2 ∧
      immediatePolicy.delayFor 1100 = immediatePolicy.cap := by
  refine ⟨immediate_valid, by decide, by decide, holds_two, ?_, by decide +kernel⟩
  rw [show immediatePolicy.initialInterval.nanos = 0 from rfl, Nat.cast_zero, zero_mul]
  positivity

end Settings
end Reconciliation
