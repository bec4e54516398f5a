import Reconciliation.Proofs.Scheduler.Retrying
import Reconciliation.Proofs.Scheduler.Taking

/-!
What decisions leave of timers and failures. A trigger takes the timer away when it hands the
identity out, and leaves it to an identity that is busy. The end of a dispatch hands the identity
out again, arms a timer, or leaves the identity to itself; it does the last only in a few ways.
-/
namespace Reconciliation

/-- The identity is at rest after a failure that is to be repeated. -/
structure IdentityState.Waiting (st : IdentityState) : Prop where
  idle : st.inFlight = false
  unqueued : st.queued = false
  quiet : st.event = .quiet
  failed : ∃ r, st.lastFailure = some r ∧ r.terminal = false

/-- A dispatch ends with a terminal failure that asks for no other run, or with a transient one
while retries are off. -/
inductive Forsakes (config : SchedulerConfig) (summary : DispatchSummary) : Prop
  | terminal (e : Error) (he : summary.error = some e)
      (hc : Scheduler.classOf e summary.noRetry = .terminal) (hr : summary.reschedule = none)
  | unretried (e : Error) (he : summary.error = some e)
      (hc : Scheduler.classOf e summary.noRetry = .transient) (hoff : config.retry = none)

/-- The ready queue marks a state that it is offered and changes nothing else in it. -/
theorem Scheduler.stored_enqueue (s : Scheduler) (st : IdentityState) :
    ∃ queued, s.stored (.enqueue st) = some { st with queued } := by
  change ∃ queued, some (s.offered st) = some { st with queued }
  unfold offered
  split
  · exact ⟨true, rfl⟩
  · exact ⟨st.queued, rfl⟩

theorem Scheduler.of_stored_enqueue {s : Scheduler} {st st' : IdentityState}
    (h : s.stored (.enqueue st) = some st') : ∃ queued, st' = { st with queued } := by
  obtain ⟨queued, heq⟩ := s.stored_enqueue st
  exact ⟨queued, Option.some.inj (h.symm.trans heq)⟩

namespace Decision

/-- The decisions on a trigger. -/
inductive Triggered (old : Option IdentityState) (cause : TriggerCause) : Decision → Prop
  | dropped (hc : cause = .deleted) (st : IdentityState) (hst : old = some st)
      (hidle : st.inFlight = false) : Triggered old cause .drop
  | doomed (hc : cause = .deleted) (st : IdentityState) (hst : old = some st)
      (hflight : st.inFlight = true) :
      Triggered old cause (.keep { st.cancelTimer with event := .deleted })
  | offered (hc : cause ≠ .deleted) (hidle : (old.getD {}).inFlight = false)
      (hunqueued : (old.getD {}).queued = false) (st : IdentityState) (he : st.event = .pending)
      (ht : st.timer = none) (hf : st.lastFailure = (old.getD {}).lastFailure) :
      Triggered old cause (.enqueue st)
  | noted (hc : cause ≠ .deleted)
      (hbusy : (old.getD {}).inFlight = true ∨ (old.getD {}).queued = true)
      (st : IdentityState) (hs : st.SamePlace (old.getD {}))
      (he : st.event = .pending ∨ st.event = .deleted) (ht : st.timer = (old.getD {}).timer)
      (hf : st.lastFailure = (old.getD {}).lastFailure) : Triggered old cause (.keep st)

/-- A trigger is noted in a state that differs from the old one at most in its event. -/
theorem record_triggered (old : Option IdentityState) (cause : TriggerCause)
    (hc : cause ≠ .deleted) (st : IdentityState) (hs : st.SamePlace (old.getD {}))
    (ht : st.timer = (old.getD {}).timer) (hf : st.lastFailure = (old.getD {}).lastFailure)
    (hsound : st.Sound) (hreleased : st.event ≠ .released) :
    Triggered old cause (record st cause) := by
  unfold record
  by_cases hacc : st.acceptsEvents = true
  · rw [if_pos hacc, st.markEvent_of_accepts cause hacc]
    dsimp only
    split
    · rename_i hd
      obtain ⟨_, hidle, hunqueued⟩ := (IdentityState.isDispatchable_iff _).mp hd
      exact .offered hc (hs.inFlight ▸ hidle) (hs.queued ▸ hunqueued) _ rfl rfl hf
    · rename_i hd
      refine .noted hc ?_ _ ⟨hs.inFlight, hs.queued⟩ (Or.inl rfl) ht hf
      rw [← hs.inFlight, ← hs.queued]
      rw [IdentityState.isDispatchable_iff] at hd
      cases hflight : st.inFlight with
      | true => exact Or.inl rfl
      | false =>
        cases hq : st.queued with
        | true => exact Or.inr rfl
        | false => exact absurd ⟨rfl, hflight, hq⟩ hd
  · rw [if_neg hacc]
    rw [IdentityState.acceptsEvents_iff, not_or] at hacc
    have hdeleted : st.event = .deleted := by
      cases hevent : st.event with
      | quiet => exact absurd hevent hacc.1
      | pending => exact absurd hevent hacc.2
      | deleted => rfl
      | released => exact absurd hevent hreleased
    exact .noted hc (Or.inl (hs.inFlight ▸ hsound.deleted_inFlight hdeleted)) st hs
      (Or.inr hdeleted) ht hf

/-- Every decision on a trigger is one of the four. -/
theorem onTrigger_triggered (old : Option IdentityState) (hold : ∀ o, old = some o → o.Sound)
    (cause : TriggerCause) (terminating : Bool) (d : Decision)
    (hd : onTrigger old cause terminating = some d) : Triggered old cause d := by
  have hsound := sound_getD old hold
  unfold onTrigger at hd
  split at hd
  · rename_i hc
    obtain ⟨st, hst, rfl⟩ := Option.map_eq_some_iff.mp hd
    unfold onDeleted
    cases hflight : st.inFlight with
    | true => exact .doomed hc st hst hflight
    | false => exact .dropped hc st hst hflight
  · rename_i hc
    dsimp only at hd
    split at hd
    · rename_i hreleased
      split at hd
      · cases hd
      · obtain rfl := Option.some.inj hd
        have hidle := hsound.released_idle hreleased
        have hunqueued : ¬(old.getD {}).queued = true := fun hq => by
          cases (hsound.queued_pending hq).symm.trans hreleased
        have hquiet : IdentityState.Sound { old.getD {} with event := .quiet } :=
          { queued_idle := fun _ => hidle
            queued_pending := fun hq => absurd hq hunqueued
            deleted_inFlight := fun h => by cases h
            released_idle := fun h => by cases h
            pending_causes := fun h => by cases h }
        exact record_triggered old cause hc _ ⟨rfl, rfl⟩ rfl rfl hquiet fun h => by cases h
    · rename_i hreleased
      obtain rfl := Option.some.inj hd
      exact record_triggered old cause hc _ ⟨rfl, rfl⟩ rfl rfl hsound hreleased

theorem onReschedule_eq_some (old : Option IdentityState) (delay : Span) (d : Decision)
    (hd : onReschedule old delay = some d) :
    (old.getD {}).event ≠ .deleted ∧ d = .arm (old.getD {}) delay .rescheduled := by
  unfold onReschedule at hd
  dsimp only at hd
  split at hd
  · cases hd
  · rename_i hkept
    rw [IdentityState.isDeleted_iff] at hkept
    exact ⟨hkept, (Option.some.inj hd).symm⟩

/-- The decisions on a timer that the identity waits for; it is used up. -/
inductive Fires (st : IdentityState) : Decision → Prop
  | handed (st' : IdentityState) (he : st'.event = .pending) (ht : st'.timer = none)
      (hf : st'.lastFailure = st.lastFailure) : Fires st (.enqueue st')
  | ignored (he : st.event = .deleted ∨ st.event = .released) : Fires st (.keep st.cancelTimer)

/-- A timer is decided upon only where the state waits for it. -/
theorem onTimer_fires (old : Option IdentityState) (t : ArmedTimer) (d : Decision)
    (hd : onTimer old t = some d) :
    ∃ st, old = some st ∧ st.timer = some t.token ∧ Fires st d := by
  obtain ⟨st, hst, hfires⟩ := Option.bind_eq_some_iff.mp hd
  split at hfires
  · rename_i htimer
    obtain rfl := Option.some.inj hfires
    refine ⟨st, hst, htimer, ?_⟩
    split
    · rename_i hacc
      rw [IdentityState.markEvent_of_accepts _ t.cause hacc]
      exact .handed _ rfl rfl rfl
    · rename_i hacc
      refine .ignored ?_
      rw [IdentityState.acceptsEvents_iff, not_or] at hacc
      cases he : st.event with
      | quiet => exact absurd he hacc.1
      | pending => exact absurd he hacc.2
      | deleted => exact Or.inl rfl
      | released => exact Or.inr rfl
  · cases hfires

/-- The decisions at the end of a dispatch. Only a failure leaves the timer that there was. -/
inductive Closes (config : SchedulerConfig) (st : IdentityState) (summary : DispatchSummary) :
    Decision → Prop
  | dropped : Closes config st summary .drop
  | released (st' : IdentityState) (he : st'.event = .released) (ht : st'.timer = none)
      (hf : st'.lastFailure = none) (hn : summary.error = none) :
      Closes config st summary (.keep st')
  | again (st' : IdentityState) (he : st'.event = .pending)
      (ht : st'.timer = summary.error.bind fun _ => st.timer) :
      Closes config st summary (.enqueue st')
  | retrying (st' : IdentityState) (delay : Span) (hw : st'.Waiting) :
      Closes config st summary (.arm st' delay .retry)
  | rescheduled (st' : IdentityState) (delay : Span) (he : st'.event = .quiet) :
      Closes config st summary (.arm st' delay .rescheduled)
  | resting (st' : IdentityState) (he : st'.event = .quiet)
      (ht : st'.timer = summary.error.bind fun _ => st.timer)
      (hf : ∀ r, st'.lastFailure = some r → r.terminal = true)
      (hend : Forsakes config summary ∨ config.maxInterval = none) :
      Closes config st summary (.keep st')

section
variable {config : SchedulerConfig} {st : IdentityState} {summary : DispatchSummary} {e : Error}

theorem afterTerminal_closes (hevent : st.event = .quiet ∨ st.event = .pending)
    (he : summary.error = some e) (hc : Scheduler.classOf e summary.noRetry = .terminal) :
    Closes config st summary (afterTerminal st e summary.reschedule) := by
  have htimer : st.timer = summary.error.bind fun _ => st.timer := by rw [he, Option.bind_some]
  unfold afterTerminal
  dsimp only
  split
  · rename_i hp
    exact .again _ (st.hasEvent_iff.mp hp) htimer
  · rename_i hp
    have hquiet : st.event = .quiet := hevent.resolve_right fun h => hp (st.hasEvent_iff.mpr h)
    cases hr : summary.reschedule with
    | some delay => exact .rescheduled _ delay hquiet
    | none =>
      refine .resting _ hquiet htimer (fun r hr => ?_) (Or.inl (.terminal e he hc hr))
      cases hr
      rfl

/-- After a transient failure an identity is left to itself only where retries are off, or used up
without an interval to fall back on. -/
theorem afterTransient_closes (hidle : st.inFlight = false) (hunqueued : st.queued = false)
    (hevent : st.event = .quiet ∨ st.event = .pending) (he : summary.error = some e)
    (hc : Scheduler.classOf e summary.noRetry = .transient) :
    Closes config st summary (afterTransient config st e) := by
  have htimer : st.timer = summary.error.bind fun _ => st.timer := by rw [he, Option.bind_some]
  unfold afterTransient
  cases hpolicy : config.retry with
  | none =>
    dsimp only
    split
    · rename_i hp
      exact .again _ (st.hasEvent_iff.mp hp) htimer
    · rename_i hp
      have hquiet : st.event = .quiet := hevent.resolve_right fun h => hp (st.hasEvent_iff.mpr h)
      refine .resting _ hquiet htimer (fun r hr => ?_) (Or.inl (.unretried e he hc hpolicy))
      cases hr
      rfl
  | some policy =>
    dsimp only
    split
    · rename_i hp
      exact .again _ (st.hasEvent_iff.mp hp) htimer
    · rename_i hp
      have hquiet : st.event = .quiet := hevent.resolve_right fun h => hp (st.hasEvent_iff.mpr h)
      generalize (st.retry.getD { policy := policy }).nextDelay = next
      obtain ⟨delay?, execution⟩ := next
      cases delay? with
      | some delay => exact .retrying _ delay ⟨hidle, hunqueued, hquiet, _, rfl, rfl⟩
      | none =>
        cases hinterval : config.maxInterval with
        | some interval => exact .rescheduled _ interval hquiet
        | none =>
          refine .resting _ hquiet htimer (fun r hr => ?_) (Or.inr hinterval)
          cases hr
          rfl

/-- A failure ends in one of the ways in which dispatches end, and leaves the timer that there
was. -/
theorem afterFailure_closes (hidle : st.inFlight = false) (hunqueued : st.queued = false)
    (hreleased : st.event ≠ .released) (he : summary.error = some e) :
    Closes config st summary (afterFailure config st e summary) := by
  unfold afterFailure
  split
  · exact .dropped
  · rename_i hkept
    have hevent : st.event = .quiet ∨ st.event = .pending := by
      cases hst : st.event with
      | quiet => exact Or.inl rfl
      | pending => exact Or.inr rfl
      | deleted => exact absurd (st.isDeleted_iff.mpr hst) hkept
      | released => exact absurd hst hreleased
    cases hc : Scheduler.classOf e summary.noRetry with
    | conflict =>
      dsimp only
      rw [st.markEvent_of_accepts .retry (st.acceptsEvents_iff.mpr hevent)]
      exact .again _ rfl (by rw [he, Option.bind_some])
    | terminal => exact afterTerminal_closes hevent he hc
    | transient => exact afterTransient_closes hidle hunqueued hevent he hc

/-- So does a success, which cancels the timer. -/
theorem afterSuccess_closes (hreleased : st.event ≠ .released) (hn : summary.error = none) :
    Closes config st summary (afterSuccess config st summary) := by
  have htimer : none = summary.error.bind fun _ => st.timer := by rw [hn, Option.bind_none]
  unfold afterSuccess
  dsimp only
  split
  · exact .dropped
  rename_i hkept
  split
  · exact .released _ rfl rfl rfl hn
  split
  · rename_i hp
    exact .again _ (st.hasEvent_iff.mp hp) htimer
  rename_i hp
  have hquiet : st.event = .quiet := by
    cases hst : st.event with
    | quiet => rfl
    | pending => exact absurd (st.hasEvent_iff.mpr hst) hp
    | deleted => exact absurd (st.isDeleted_iff.mpr hst) hkept
    | released => exact absurd hst hreleased
  split
  · exact .dropped
  unfold afterIdleSuccess
  cases summary.reschedule with
  | some delay =>
    dsimp only
    split
    · have hacc : IdentityState.acceptsEvents
          { st.cancelTimer with retry := none, lastFailure := none } = true :=
        (IdentityState.acceptsEvents_iff _).mpr (Or.inl hquiet)
      rw [IdentityState.markEvent_of_accepts _ .rescheduled hacc]
      exact .again _ rfl htimer
    · exact .rescheduled _ delay hquiet
  | none =>
    cases hinterval : config.maxInterval with
    | some interval => exact .rescheduled _ interval hquiet
    | none => exact .resting _ hquiet htimer nofun (Or.inr hinterval)

end

/-- Every decision at the end of a dispatch is one of these. -/
theorem onFinished_closes (config : SchedulerConfig) (st : IdentityState)
    (summary : DispatchSummary) (hs : st.Sound) (hflight : st.inFlight = true) :
    Closes config st summary (onFinished config st summary) := by
  have hreleased : st.event ≠ .released := fun he => by
    cases (hs.released_idle he).symm.trans hflight
  have hunqueued : st.queued = false := by
    rw [← Bool.not_eq_true]
    exact fun hq => by cases (hs.queued_idle hq).symm.trans hflight
  -- the flag of the dispatch is cleared first, which leaves the timer alone
  have hidle : ∀ d, Closes config { st with inFlight := false } summary d →
      Closes config st summary d := by
    intro d hd
    cases hd with
    | dropped => exact .dropped
    | released st' he ht hf hn => exact .released st' he ht hf hn
    | again st' he ht => exact .again st' he ht
    | retrying st' delay hw => exact .retrying st' delay hw
    | rescheduled st' delay he => exact .rescheduled st' delay he
    | resting st' he ht hf hend => exact .resting st' he ht hf hend
  refine hidle _ ?_
  unfold onFinished
  cases he : summary.error with
  | some e => exact afterFailure_closes rfl hunqueued hreleased he
  | none => exact afterSuccess_closes hreleased he

end Decision
end Reconciliation
