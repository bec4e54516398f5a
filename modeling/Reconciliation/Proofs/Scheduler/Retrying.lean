import Reconciliation.Proofs.Scheduler.Decision
import Reconciliation.Proofs.Scheduler.Order

/-!
What the scheduler decides about retries. Every decision leaves the count of attempts of an
identity alone, or starts it anew after a success, except one: a dispatch that failed for a
transient reason, with no event pending and attempts left, is counted and gets a timer.
-/
namespace Reconciliation

namespace RetryProgress

/-- The count goes up by one and stops at its greatest value. -/
theorem toNat_counted (e : RetryProgress) :
    e.counted.attempts.toNat = min (e.attempts.toNat + 1) (UInt32.size - 1) := by
  have hsize : UInt32.size = 4294967296 := rfl
  have hlt := e.attempts.toNat_lt
  unfold counted
  dsimp only
  split
  · rename_i heq
    rw [heq]
    rfl
  · rename_i hne
    have hbelow : e.attempts.toNat ≠ 4294967295 := fun h => hne (UInt32.toNat_inj.mp h)
    rw [UInt32.toNat_add, UInt32.toNat_one]
    omega

theorem nextDelay_of_exhausted (e : RetryProgress) (h : e.isExhausted = true) :
    e.nextDelay = (none, e) := if_pos h

theorem nextDelay_of_left (e : RetryProgress) (h : e.isExhausted = false) :
    e.nextDelay = (some (e.policy.delayFor e.counted.attempts), e.counted) := by
  unfold nextDelay
  rw [h, if_neg Bool.false_ne_true]

theorem isExhausted_iff (e : RetryProgress) (n : UInt32) (hn : e.policy.maxAttempts = some n) :
    e.isExhausted = true ↔ n ≤ e.attempts := by
  simp [isExhausted, hn]

end RetryProgress

namespace IdentityState

/-- The retries since the last success. -/
def attempts (st : IdentityState) : UInt32 := (st.retry.map (·.attempts)).getD 0

/-- The progress of the identity, if it has one, follows the policy. -/
def Governed (st : IdentityState) (policy : RetryPolicy) : Prop :=
  ∀ e, st.retry = some e → e.policy = policy

/-- The state that a transient failure is noted in. -/
def noted (st : IdentityState) (execution : RetryProgress) (e : Error) (terminal : Bool) :
    IdentityState :=
  { st with
    retry := some execution
    lastFailure := some ⟨e.message, .transient, execution.attempts, terminal⟩ }

/-- The progress of an identity, a fresh one if it has none, has its attempts. -/
theorem attempts_getD (st : IdentityState) (policy : RetryPolicy) :
    (st.retry.getD { policy }).attempts = st.attempts := by
  unfold attempts
  cases st.retry <;> rfl

theorem Governed.getD {st : IdentityState} {policy : RetryPolicy} (h : st.Governed policy) :
    (st.retry.getD { policy }).policy = policy := by
  cases hretry : st.retry with
  | none => rfl
  | some e => exact h e hretry

theorem retry_markEvent (st : IdentityState) (cause : TriggerCause) :
    (st.markEvent cause).retry = st.retry := by
  unfold markEvent
  split <;> rfl

end IdentityState

namespace Decision

/-- A decision that keeps to a count of attempts, and arms no timer for a retry. -/
structure Spares (policy : RetryPolicy) (attempts : UInt32) (d : Decision) : Prop where
  attempts_eq : ∀ st, d.state? = some st → st.attempts = attempts
  governed : ∀ st, d.state? = some st → st.Governed policy
  unarmed : ∀ st delay, d ≠ .arm st delay .retry

/-- What the end of a dispatch does to the retries of its identity. -/
inductive Budgets (policy : RetryPolicy) (st : IdentityState) (summary : DispatchSummary) :
    Decision → Prop
  | renews (d : Decision) (hn : summary.error = none) (hd : d.Spares policy 0) :
      Budgets policy st summary d
  | spares (e : Error) (he : summary.error = some e) (d : Decision)
      (hd : d.Spares policy st.attempts) : Budgets policy st summary d
  | spends (e : Error) (he : summary.error = some e)
      (hc : Scheduler.classOf e summary.noRetry = .transient) (hp : st.event ≠ .pending)
      (hleft : ∀ n, policy.maxAttempts = some n → st.attempts < n) (st' : IdentityState)
      (hst' : st'.attempts.toNat = min (st.attempts.toNat + 1) (UInt32.size - 1))
      (hgov : st'.Governed policy) :
      Budgets policy st summary (.arm st' (policy.delayFor st'.attempts) .retry)

section
variable {policy : RetryPolicy} {st : IdentityState} (h : st.Governed policy)
include h

theorem spares_of_retry (d : Decision)
    (hretry : ∀ st', d.state? = some st' → st'.retry = st.retry)
    (hunarmed : ∀ st' delay, d ≠ .arm st' delay .retry) : d.Spares policy st.attempts := by
  refine ⟨fun st' hst' => ?_, fun st' hst' e he => ?_, hunarmed⟩
  · unfold IdentityState.attempts
    rw [hretry st' hst']
  · exact h e (hretry st' hst' ▸ he)

theorem spares_keep (st' : IdentityState) (hretry : st'.retry = st.retry) :
    (Decision.keep st').Spares policy st.attempts :=
  spares_of_retry h _ (by rintro _ ⟨⟩; exact hretry) (by rintro _ _ ⟨⟩)

theorem spares_enqueue (st' : IdentityState) (hretry : st'.retry = st.retry) :
    (Decision.enqueue st').Spares policy st.attempts :=
  spares_of_retry h _ (by rintro _ ⟨⟩; exact hretry) (by rintro _ _ ⟨⟩)

theorem spares_arm (st' : IdentityState) (hretry : st'.retry = st.retry) (delay : Span) :
    (Decision.arm st' delay .rescheduled).Spares policy st.attempts :=
  spares_of_retry h _ (by rintro _ ⟨⟩; exact hretry) (by rintro _ _ ⟨⟩)

theorem spares_drop : Decision.drop.Spares policy st.attempts :=
  spares_of_retry h _ (by rintro _ ⟨⟩) (by rintro _ _ ⟨⟩)

theorem record_spares (cause : TriggerCause) : (record st cause).Spares policy st.attempts := by
  have hretry := st.retry_markEvent cause
  unfold record
  split
  · dsimp only
    split
    · exact spares_enqueue h _ hretry
    · exact spares_keep h _ hretry
  · exact spares_keep h st rfl

theorem onDeleted_spares : (onDeleted st).Spares policy st.attempts := by
  unfold onDeleted
  split
  · exact spares_keep h _ rfl
  · exact spares_drop h

theorem afterTerminal_spares (e : Error) (reschedule : Option Span) :
    (afterTerminal st e reschedule).Spares policy st.attempts := by
  unfold afterTerminal
  dsimp only
  split
  · exact spares_enqueue h _ rfl
  · cases reschedule with
    | some delay => exact spares_arm h _ (by rfl) delay
    | none => exact spares_keep h _ (by rfl)

omit h in
/-- A failure that arms no timer, with the progress it was noted in. -/
theorem spares_noted (execution : RetryProgress) (hattempts : execution.attempts = st.attempts)
    (hgov : execution.policy = policy) (d : Decision)
    (hretry : ∀ st', d.state? = some st' → st'.retry = some execution)
    (hunarmed : ∀ st' delay, d ≠ .arm st' delay .retry) : d.Spares policy st.attempts := by
  refine ⟨fun st' hst' => ?_, fun st' hst' e he => ?_, hunarmed⟩
  · rw [← hattempts]
    unfold IdentityState.attempts
    rw [hretry st' hst']
    rfl
  · rw [hretry st' hst'] at he
    rw [← Option.some.inj he]
    exact hgov

theorem isExhausted_getD (n : UInt32) (hn : policy.maxAttempts = some n) :
    (st.retry.getD { policy }).isExhausted = true ↔ n ≤ st.attempts := by
  have hmax : (st.retry.getD { policy }).policy.maxAttempts = some n := by rw [h.getD, hn]
  rw [RetryProgress.isExhausted_iff _ n hmax, st.attempts_getD]

/-- With an event pending, a transient failure is handed out again at once. -/
theorem afterTransient_of_pending (config : SchedulerConfig) (hpolicy : config.retry = some policy)
    (hp : st.event = .pending) (e : Error) :
    ∃ execution : RetryProgress, execution.policy = policy ∧ execution.attempts = st.attempts ∧
      afterTransient config st e = .enqueue (st.noted execution e false) := by
  refine ⟨st.retry.getD { policy }, h.getD, st.attempts_getD policy, ?_⟩
  unfold afterTransient
  rw [hpolicy]
  dsimp only
  rw [if_pos (st.hasEvent_iff.mpr hp)]
  rfl

/-- A transient failure with attempts left is followed by a timer for a retry. -/
theorem afterTransient_of_left (config : SchedulerConfig) (hpolicy : config.retry = some policy)
    (hp : st.event ≠ .pending) (hleft : (st.retry.getD { policy }).isExhausted = false)
    (e : Error) :
    ∃ execution : RetryProgress, execution.policy = policy ∧
      execution.attempts.toNat = min (st.attempts.toNat + 1) (UInt32.size - 1) ∧
      afterTransient config st e =
        .arm (st.noted execution e false) (policy.delayFor execution.attempts) .retry := by
  have hquiet : ¬ st.hasEvent = true := fun he => hp (st.hasEvent_iff.mp he)
  refine ⟨(st.retry.getD { policy }).counted, h.getD, ?_, ?_⟩
  · rw [RetryProgress.toNat_counted, st.attempts_getD]
  · unfold afterTransient
    rw [hpolicy]
    dsimp only
    rw [if_neg hquiet, RetryProgress.nextDelay_of_left _ hleft, h.getD]
    rfl

/-- A transient failure without attempts left is the last one, unless the identity is run again
from time to time. -/
theorem afterTransient_of_exhausted (config : SchedulerConfig)
    (hpolicy : config.retry = some policy) (hp : st.event ≠ .pending)
    (hspent : (st.retry.getD { policy }).isExhausted = true) (e : Error) :
    ∃ execution : RetryProgress, execution.policy = policy ∧ execution.attempts = st.attempts ∧
      afterTransient config st e = config.maxInterval.elim (.keep (st.noted execution e true))
        fun interval => .arm (st.noted execution e true) interval .rescheduled := by
  have hquiet : ¬ st.hasEvent = true := fun he => hp (st.hasEvent_iff.mp he)
  refine ⟨st.retry.getD { policy }, h.getD, st.attempts_getD policy, ?_⟩
  unfold afterTransient
  rw [hpolicy]
  dsimp only
  rw [if_neg hquiet, RetryProgress.nextDelay_of_exhausted _ hspent]
  cases config.maxInterval <;> rfl

/-- A transient failure without an event uses up one retry, if any is left. -/
theorem afterTransient_budgets (config : SchedulerConfig) (hpolicy : config.retry = some policy)
    (e : Error) (summary : DispatchSummary) (he : summary.error = some e)
    (hc : Scheduler.classOf e summary.noRetry = .transient) :
    Budgets policy st summary (afterTransient config st e) := by
  by_cases hp : st.event = .pending
  · obtain ⟨execution, hgov, hattempts, heq⟩ := afterTransient_of_pending h config hpolicy hp e
    rw [heq]
    exact .spares e he _ (spares_noted execution hattempts hgov _ (by rintro _ ⟨⟩; rfl)
      (by rintro _ _ ⟨⟩))
  cases hexhausted : (st.retry.getD { policy }).isExhausted with
  | true =>
    obtain ⟨execution, hgov, hattempts, heq⟩ :=
      afterTransient_of_exhausted h config hpolicy hp hexhausted e
    rw [heq]
    refine .spares e he _ (spares_noted execution hattempts hgov _ ?_ ?_)
    · cases config.maxInterval <;> rintro _ ⟨⟩ <;> rfl
    · cases config.maxInterval <;> rintro _ _ ⟨⟩
  | false =>
    obtain ⟨execution, hgov, hcounted, heq⟩ :=
      afterTransient_of_left h config hpolicy hp hexhausted e
    rw [heq]
    refine .spends e he hc hp (fun n hn => ?_) (st.noted execution e false) hcounted ?_
    · rw [← UInt32.not_le, ← isExhausted_getD h n hn, hexhausted]
      exact Bool.false_ne_true
    · rintro _ ⟨⟩
      exact hgov

theorem afterFailure_budgets (config : SchedulerConfig) (hpolicy : config.retry = some policy)
    (e : Error) (summary : DispatchSummary) (he : summary.error = some e) :
    Budgets policy st summary (afterFailure config st e summary) := by
  unfold afterFailure
  split
  · exact .spares e he _ (spares_drop h)
  · cases hc : Scheduler.classOf e summary.noRetry with
    | conflict => exact .spares e he _ (spares_enqueue h _ (st.retry_markEvent .retry))
    | terminal => exact .spares e he _ (afterTerminal_spares h e summary.reschedule)
    | transient => exact afterTransient_budgets h config hpolicy e summary he hc

end

theorem governed_fresh (policy : RetryPolicy) : ({} : IdentityState).Governed policy := nofun

section
variable {policy : RetryPolicy} {old : Option IdentityState}
  (hold : ∀ o, old = some o → o.Governed policy)
include hold

theorem governed_getD : (old.getD {}).Governed policy := by
  cases old with
  | none => exact governed_fresh policy
  | some o => exact hold o rfl

/-- A trigger spares the retries. -/
theorem onTrigger_spares (cause : TriggerCause) (terminating : Bool) (d : Decision)
    (hd : onTrigger old cause terminating = some d) :
    d.Spares policy (old.getD {}).attempts := by
  have hgov := governed_getD hold
  unfold onTrigger at hd
  split at hd
  · obtain ⟨st, rfl, rfl⟩ := Option.map_eq_some_iff.mp hd
    exact onDeleted_spares hgov
  · dsimp only at hd
    split at hd
    · split at hd
      · cases hd
      · obtain rfl := Option.some.inj hd
        have hquiet : ({ old.getD {} with event := .quiet } : IdentityState).Governed policy :=
          hgov
        exact record_spares hquiet cause
    · obtain rfl := Option.some.inj hd
      exact record_spares hgov cause

theorem onReschedule_spares (delay : Span) (d : Decision)
    (hd : onReschedule old delay = some d) : d.Spares policy (old.getD {}).attempts := by
  unfold onReschedule at hd
  dsimp only at hd
  split at hd
  · cases hd
  · obtain rfl := Option.some.inj hd
    exact spares_arm (governed_getD hold) _ rfl delay

theorem onTimer_spares (t : ArmedTimer) (d : Decision) (hd : onTimer old t = some d) :
    d.Spares policy (old.getD {}).attempts := by
  have hgov := governed_getD hold
  unfold onTimer at hd
  cases old with
  | none => cases hd
  | some st =>
    rw [Option.bind_some] at hd
    split at hd
    · obtain rfl := Option.some.inj hd
      split
      · exact spares_enqueue hgov _ (st.cancelTimer.retry_markEvent t.cause)
      · exact spares_keep hgov _ rfl
    · cases hd

end

/-- A success starts the count anew. -/
theorem afterSuccess_spares (policy : RetryPolicy) (config : SchedulerConfig) (st : IdentityState)
    (summary : DispatchSummary) : (afterSuccess config st summary).Spares policy 0 := by
  have hgov := governed_fresh policy
  unfold afterSuccess
  dsimp only
  split
  · exact spares_drop hgov
  split
  · exact spares_keep hgov _ rfl
  split
  · exact spares_enqueue hgov _ rfl
  split
  · exact spares_drop hgov
  unfold afterIdleSuccess
  cases summary.reschedule with
  | some delay =>
    dsimp only
    split
    · exact spares_enqueue hgov _ (IdentityState.retry_markEvent _ _)
    · exact spares_arm hgov _ (by rfl) delay
  | none =>
    cases config.maxInterval with
    | some interval => exact spares_arm hgov _ (by rfl) interval
    | none => exact spares_keep hgov _ (by rfl)

theorem Budgets.of_idle {policy : RetryPolicy} {st : IdentityState} {summary : DispatchSummary}
    {d : Decision} (h : Budgets policy { st with inFlight := false } summary d) :
    Budgets policy st summary d := by
  cases h with
  | renews _ hn hd => exact .renews _ hn hd
  | spares e he _ hd => exact .spares e he _ hd
  | spends e he hc hp hleft st' hst' hgov =>
    refine .spends e he hc ?_ ?_ st' ?_ hgov
    · exact hp
    · exact hleft
    · exact hst'

theorem onFinished_budgets (policy : RetryPolicy) (config : SchedulerConfig)
    (hpolicy : config.retry = some policy) (st : IdentityState) (h : st.Governed policy)
    (summary : DispatchSummary) : Budgets policy st summary (onFinished config st summary) := by
  unfold onFinished
  cases he : summary.error with
  | some e => exact (afterFailure_budgets (by exact h) config hpolicy e summary he).of_idle
  | none => exact .renews _ he (afterSuccess_spares policy config _ summary)

end Decision
end Reconciliation
