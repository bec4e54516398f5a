import Mathlib.Tactic.SplitIfs
import Reconciliation.Settings.Basic

/-!
What it says about settings that they are valid. The rules are tested in turn and the first one
that is broken is reported, so valid settings are those that keep all rules. A finalizer that is
not empty can be put in place of the one they have.
-/
namespace Reconciliation.Settings

variable {s : Settings}

/-- All rules are kept. -/
structure Valid (s : Settings) : Prop where
  kind : (Text.trim s.kind).isEmpty = false
  workers : s.workers ≠ 0
  maxConcurrency : s.workflow.maxConcurrency ≠ 0
  finalizer : s.finalizerIsEmpty = false
  multiplier : s.multiplierInRange = true
  maxInterval : s.maxIntervalInRange = true

/-- No violation is reported exactly if all rules are kept. -/
theorem violation?_eq_none_iff : s.violation? = none ↔ s.Valid := by
  constructor
  · intro h
    unfold violation? at h
    split_ifs at h with hkind hworkers hconcurrency hfinalizer hmultiplier hinterval
    exact ⟨Bool.not_eq_true _ ▸ hkind, hworkers, hconcurrency, Bool.not_eq_true _ ▸ hfinalizer,
      by simpa using hmultiplier, by simpa using hinterval⟩
  · rintro ⟨hkind, hworkers, hconcurrency, hfinalizer, hmultiplier, hinterval⟩
    simp [violation?, hkind, hworkers, hconcurrency, hfinalizer, hmultiplier, hinterval]

/-- The tests pass exactly the settings that keep all rules. -/
theorem valid_iff : s.validate = .ok () ↔ s.Valid := by
  rw [← violation?_eq_none_iff, validate]
  cases s.violation? <;> simp

theorem Valid.isFinite (h : s.Valid) : s.retry.multiplier.isFinite = true :=
  (Bool.and_eq_true_iff.mp h.multiplier).1

/-- Of all finalizers only the empty one is refused. -/
theorem Valid.withFinalizer (h : s.Valid) {f : String} (hf : f ≠ "") :
    Valid { s with finalizer := some f } where
  kind := h.kind
  workers := h.workers
  maxConcurrency := h.maxConcurrency
  finalizer := decide_eq_false fun heq => hf (Option.some.inj heq)
  multiplier := h.multiplier
  maxInterval := h.maxInterval

end Reconciliation.Settings
