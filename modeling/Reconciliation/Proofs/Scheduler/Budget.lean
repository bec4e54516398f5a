import Reconciliation.Proofs.Scheduler.Retrying
import Reconciliation.Proofs.Scheduler.Serving

/-!
The retries that a scheduler keeps account of. Carrying out a decision leaves the retries of all
other identities alone. Only the end of a dispatch uses up a retry, with a timer armed for it, or
starts the count of attempts anew; every other operation leaves all retries as they were.
-/
namespace Reconciliation

namespace Scheduler

/-- The retries of an identity since its last success. -/
def attempts (s : Scheduler) (id : ResourceId) : UInt32 := (s.stateOf id).attempts

/-- The timers ever armed for retries of an identity, the newest first. -/
def retryTimers (s : Scheduler) (id : ResourceId) : List ArmedTimer :=
  s.armed.filter fun t => t.id = id ∧ t.cause = .retry

/-- The progress of every identity follows the policy. -/
def Governed (s : Scheduler) (policy : RetryPolicy) : Prop :=
  ∀ id st, s.stateOf? id = some st → st.Governed policy

/-- The retries of an identity are as before, if anything is still known of it. -/
structure SameRetries (s s' : Scheduler) (id : ResourceId) : Prop where
  attempts_eq : ∀ st, s'.stateOf? id = some st → st.attempts = s.attempts id
  timers_eq : s'.retryTimers id = s.retryTimers id

/-- The retries of all identities are as before. -/
structure SparesRetries (s s' : Scheduler) (policy : RetryPolicy) : Prop where
  governed : s'.Governed policy
  same : ∀ id, s.SameRetries s' id

theorem attempts_of_state (s : Scheduler) (id : ResourceId) (st : IdentityState)
    (hst : s.stateOf? id = some st) : s.attempts id = st.attempts := by
  unfold attempts stateOf
  rw [hst]
  rfl

/-- Nothing but the states, the ready queue and the timers changes with a decision. -/
theorem carryOut_frame (s : Scheduler) (id : ResourceId) (d : Decision) :
    ∃ states ready armed, s.carryOut id d = { s with states, ready, armed } := by
  cases d with
  | enqueue st =>
    simp only [carryOut, enqueue]
    split <;> exact ⟨_, _, _, rfl⟩
  | _ => exact ⟨_, _, _, rfl⟩

theorem carryOut?_frame (s : Scheduler) (id : ResourceId) (d? : Option Decision) :
    ∃ states ready armed, s.carryOut? id d? = { s with states, ready, armed } := by
  cases d? with
  | none => exact ⟨_, _, _, rfl⟩
  | some d => exact s.carryOut_frame id d

theorem trigger_frame (s : Scheduler) (id : ResourceId) (cause : TriggerCause)
    (terminating : Bool) :
    ∃ states ready armed, s.trigger id cause terminating = { s with states, ready, armed } := by
  rw [trigger_eq]
  exact s.carryOut?_frame id _

theorem reschedule_frame (s : Scheduler) (id : ResourceId) (delay : Span) :
    ∃ states ready armed, s.reschedule id delay = { s with states, ready, armed } := by
  rw [reschedule_eq]
  exact s.carryOut?_frame id _

theorem timerFired_frame (s : Scheduler) (t : ArmedTimer) :
    ∃ states ready armed, s.timerFired t = { s with states, ready, armed } := by
  rw [timerFired_eq]
  exact s.carryOut?_frame t.id _

/-- The end of a dispatch touches states, the ready queue, timers and counts, and nothing else. -/
theorem finished_frame (s : Scheduler) (id : ResourceId) (summary : DispatchSummary) :
    ∃ states ready armed stats,
      s.finished id summary = { s with states, ready, armed, stats } := by
  cases hst : s.stateOf? id with
  | none =>
    unfold finished
    rw [hst]
    exact ⟨_, _, _, _, rfl⟩
  | some st =>
    obtain ⟨stats, heq⟩ := s.finished_eq id summary st hst
    obtain ⟨states, ready, armed, hframe⟩ := carryOut_frame { s with stats } id
      (Decision.onFinished s.config st summary)
    exact ⟨states, ready, armed, stats, heq.trans hframe⟩

theorem armed_carryOut (s : Scheduler) (id : ResourceId) (d : Decision) :
    (s.carryOut id d).armed = (match d with
      | .arm _ delay cause => [⟨id, s.armed.length, delay, cause⟩]
      | _ => []) ++ s.armed := by
  cases d with
  | enqueue st =>
    simp only [carryOut, enqueue]
    split <;> rfl
  | _ => rfl

/-- Handing out what waits touches only the states and the ready queue. -/
theorem foldl_offer_frame (l : List (ResourceId × IdentityState)) (s : Scheduler) :
    ∃ states ready, l.foldl offer s = { s with states, ready } := by
  induction l generalizing s with
  | nil => exact ⟨_, _, rfl⟩
  | cons e rest ih =>
    obtain ⟨states, ready, heq⟩ := ih (s.offer e)
    rw [List.foldl_cons, heq]
    unfold offer enqueue
    split
    · split <;> exact ⟨_, _, rfl⟩
    · exact ⟨_, _, rfl⟩

theorem run_frame (s s' : Scheduler) (h : s.run = .ok s') :
    ∃ states ready, s' =
      { s with serving := true, stopRequested := false, running := true, states, ready } := by
  obtain ⟨_, rfl⟩ := run_eq_ok s s' h
  exact foldl_offer_frame _ _

/-- A state is stored with the progress that was decided on. -/
theorem stored_retry (s : Scheduler) (d : Decision) (st : IdentityState)
    (h : s.stored d = some st) : ∃ st', d.state? = some st' ∧ st.retry = st'.retry := by
  cases d with
  | drop => cases h
  | keep st' =>
    cases h
    exact ⟨st, rfl, rfl⟩
  | enqueue st' =>
    cases h
    refine ⟨st', rfl, ?_⟩
    unfold offered
    split <;> rfl
  | arm st' delay cause =>
    cases h
    exact ⟨st', rfl, rfl⟩

theorem governed_carryOut (s : Scheduler) (policy : RetryPolicy) (hs : s.Governed policy)
    (id : ResourceId) (d : Decision) (hd : ∀ st, d.state? = some st → st.Governed policy) :
    (s.carryOut id d).Governed policy := by
  intro k st hst
  rw [stateOf?_carryOut] at hst
  split at hst
  · obtain ⟨st', hst', hretry⟩ := s.stored_retry d st hst
    intro e he
    exact hd st' hst' e (hretry ▸ he)
  · exact hs k st hst

/-- A decision on one identity leaves the retries of all others alone. -/
theorem sameRetries_carryOut_of_ne (s : Scheduler) (id k : ResourceId) (d : Decision)
    (hk : k ≠ id) : s.SameRetries (s.carryOut id d) k := by
  refine ⟨fun st hst => ?_, ?_⟩
  · rw [stateOf?_carryOut, if_neg hk] at hst
    exact (s.attempts_of_state k st hst).symm
  · unfold retryTimers
    rw [armed_carryOut, List.filter_append]
    cases d with
    | arm st delay cause => simp [Ne.symm hk]
    | _ => rfl

/-- A decision that spares the retries of its identity leaves the retries of all others alone
too. -/
theorem sameRetries_carryOut (s : Scheduler) (policy : RetryPolicy) (id k : ResourceId)
    (d : Decision) (hd : d.Spares policy (s.attempts id)) : s.SameRetries (s.carryOut id d) k := by
  by_cases hk : k = id
  · subst hk
    refine ⟨fun st hst => ?_, ?_⟩
    · rw [stateOf?_carryOut, if_pos rfl] at hst
      obtain ⟨st', hst', hretry⟩ := s.stored_retry d st hst
      rw [← hd.attempts_eq st' hst']
      unfold IdentityState.attempts
      rw [hretry]
    · unfold retryTimers
      rw [armed_carryOut, List.filter_append]
      cases d with
      | arm st delay cause =>
        have hcause : cause ≠ .retry := fun h => hd.unarmed st delay (by rw [h])
        simp [hcause]
      | _ => rfl
  · exact s.sameRetries_carryOut_of_ne id k d hk

theorem sameRetries_refl (s : Scheduler) (id : ResourceId) : s.SameRetries s id :=
  ⟨fun st hst => (s.attempts_of_state id st hst).symm, rfl⟩

theorem spares_carryOut? (s : Scheduler) (policy : RetryPolicy) (hs : s.Governed policy)
    (id : ResourceId) (d? : Option Decision)
    (hd : ∀ d, d? = some d → d.Spares policy (s.attempts id)) :
    s.SparesRetries (s.carryOut? id d?) policy := by
  cases d? with
  | none => exact ⟨hs, s.sameRetries_refl⟩
  | some d =>
    exact ⟨s.governed_carryOut policy hs id d (hd d rfl).governed,
      fun k => s.sameRetries_carryOut policy id k d (hd d rfl)⟩

/-- What changes nothing but where the identities stand leaves their retries alone. -/
theorem spares_of_map (s s' : Scheduler) (policy : RetryPolicy) (hs : s.Governed policy)
    (f : IdentityState → IdentityState) (hf : ∀ st, (f st).retry = st.retry)
    (hstates : ∀ id, s'.stateOf? id = (s.stateOf? id).map f) (harmed : s'.armed = s.armed) :
    s.SparesRetries s' policy := by
  refine ⟨fun id st hst e he => ?_, fun id => ⟨fun st hst => ?_, ?_⟩⟩
  · rw [hstates] at hst
    obtain ⟨st', hst', rfl⟩ := Option.map_eq_some_iff.mp hst
    rw [hf] at he
    exact hs id st' hst' e he
  · rw [hstates] at hst
    obtain ⟨st', hst', rfl⟩ := Option.map_eq_some_iff.mp hst
    rw [s.attempts_of_state id st' hst']
    unfold IdentityState.attempts
    rw [hf]
  · unfold retryTimers
    rw [harmed]

/-- A dispatch that fails for a transient reason uses up a retry, and a timer is armed for it. -/
structure SpendsRetry (s s' : Scheduler) (policy : RetryPolicy) (id : ResourceId) : Prop where
  alone : (s.stateOf id).event ≠ .pending
  left : ∀ n, policy.maxAttempts = some n → s.attempts id < n
  counted : (s'.attempts id).toNat = min ((s.attempts id).toNat + 1) (UInt32.size - 1)
  armed : ∃ token, s'.retryTimers id =
    ⟨id, token, policy.delayFor (s'.attempts id), .retry⟩ :: s.retryTimers id

theorem attempts_of_forgotten (s : Scheduler) (id : ResourceId) (h : s.stateOf? id = none) :
    s.attempts id = 0 := by
  unfold attempts stateOf
  rw [h]
  rfl

theorem attempts_carryOut_of_renewed (s : Scheduler) (policy : RetryPolicy) (id : ResourceId)
    (d : Decision) (hd : d.Spares policy 0) : (s.carryOut id d).attempts id = 0 := by
  have hstate : (s.carryOut id d).stateOf? id = s.stored d := by
    rw [stateOf?_carryOut, if_pos rfl]
  cases hstored : s.stored d with
  | none => exact attempts_of_forgotten _ id (hstate.trans hstored)
  | some st =>
    obtain ⟨st', hst', hretry⟩ := s.stored_retry d st hstored
    rw [attempts_of_state _ id st (hstate.trans hstored), ← hd.attempts_eq st' hst']
    unfold IdentityState.attempts
    rw [hretry]

/-- A timer for a retry uses one up, as long as the policy leaves any. -/
theorem spendsRetry_arm (s : Scheduler) (policy : RetryPolicy) (id : ResourceId)
    (st st' : IdentityState) (hst : s.stateOf? id = some st) (hp : st.event ≠ .pending)
    (hleft : ∀ n, policy.maxAttempts = some n → st.attempts < n)
    (hst' : st'.attempts.toNat = min (st.attempts.toNat + 1) (UInt32.size - 1)) :
    s.SpendsRetry (s.arm id st' (policy.delayFor st'.attempts) .retry) policy id := by
  have hattempts := s.attempts_of_state id st hst
  have hstate : s.stateOf id = st := by
    unfold stateOf
    rw [hst]
    rfl
  have harmed : (s.arm id st' (policy.delayFor st'.attempts) .retry).attempts id =
      st'.attempts := by
    rw [attempts_of_state _ id { st' with timer := some s.armed.length }]
    · rfl
    · rw [stateOf?_arm, if_pos rfl]
  refine ⟨hstate ▸ hp, hattempts ▸ hleft, ?_, s.armed.length, ?_⟩
  · rw [harmed, hattempts, hst']
  · rw [harmed]
    unfold retryTimers
    exact List.filter_cons_of_pos (by simp)

/-- The end of a dispatch starts the count of its identity anew after a success, uses up a retry
of it, or leaves all retries alone. -/
theorem retries_finished (s : Scheduler) (policy : RetryPolicy)
    (hpolicy : s.config.retry = some policy) (hs : s.Governed policy) (id : ResourceId)
    (summary : DispatchSummary) :
    (s.finished id summary).Governed policy ∧
    (∀ k ≠ id, s.SameRetries (s.finished id summary) k) ∧
    (summary.error = none → (s.finished id summary).attempts id = 0) ∧
    ∀ e, summary.error = some e → s.SameRetries (s.finished id summary) id ∨
      (classOf e summary.noRetry = .transient ∧
        s.SpendsRetry (s.finished id summary) policy id) := by
  cases hst : s.stateOf? id with
  | none =>
    have hsame : s.finished id summary = s := by
      unfold finished
      rw [hst]
    rw [hsame]
    exact ⟨hs, fun k _ => s.sameRetries_refl k, fun _ => s.attempts_of_forgotten id hst,
      fun _ _ => Or.inl (s.sameRetries_refl id)⟩
  | some st =>
    obtain ⟨stats, heq⟩ := s.finished_eq id summary st hst
    have hattempts := s.attempts_of_state id st hst
    have hgov : ({ s with stats } : Scheduler).Governed policy := hs
    rw [heq]
    generalize hd : Decision.onFinished s.config st summary = d
    have hbudgets := Decision.onFinished_budgets policy s.config hpolicy st (hs id st hst) summary
    rw [hd] at hbudgets
    refine ⟨governed_carryOut _ policy hgov id d ?_, fun k hk => ?_, fun hn => ?_, fun e he => ?_⟩
    · cases hbudgets with
      | renews _ _ hd => exact hd.governed
      | spares _ _ _ hd => exact hd.governed
      | spends _ _ _ _ _ st' _ hgov' =>
        rintro _ ⟨⟩
        exact hgov'
    · have hsame := sameRetries_carryOut_of_ne { s with stats } id k d hk
      exact ⟨hsame.attempts_eq, hsame.timers_eq⟩
    · cases hbudgets with
      | renews _ _ hd => exact attempts_carryOut_of_renewed _ policy id d hd
      | spares _ he => cases hn.symm.trans he
      | spends _ he => cases hn.symm.trans he
    · cases hbudgets with
      | renews _ hn => cases hn.symm.trans he
      | spares _ _ _ hd =>
        have hsame := sameRetries_carryOut { s with stats } policy id id d (hattempts.symm ▸ hd)
        exact Or.inl ⟨hsame.attempts_eq, hsame.timers_eq⟩
      | spends e' he' hc hp hleft st' hst' =>
        obtain rfl : e' = e := Option.some.inj (he'.symm.trans he)
        have hspends := spendsRetry_arm { s with stats } policy id st st' hst hp hleft hst'
        exact Or.inr ⟨hc, hspends.alone, hspends.left, hspends.counted, hspends.armed⟩

end Scheduler
end Reconciliation
