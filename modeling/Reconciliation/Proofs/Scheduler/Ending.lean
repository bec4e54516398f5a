import Reconciliation.Proofs.Scheduler.Order

/-!
What the scheduler decides at the end of a dispatch. An event that came in meanwhile is handed
on by every exit but one: it is given up with the finalizer of its object.
-/
namespace Reconciliation

namespace Decision

/-- The ways in which the end of a dispatch can be decided. An event that came in meanwhile is
handed on; it is given up only for an identity whose finalizer was removed. -/
inductive Ends (st : IdentityState) (summary : DispatchSummary) : Decision → Prop
  | drop (hp : st.event ≠ .pending) : Ends st summary .drop
  | release (st' : IdentityState) (hr : st'.Rested) (he : st'.event = .released)
      (hf : summary.finalizerRemoved = true) (hn : summary.error = none) :
      Ends st summary (.keep st')
  | keep (st' : IdentityState) (hr : st'.Rested) (he : st'.event = .quiet)
      (hp : st.event ≠ .pending) : Ends st summary (.keep st')
  | enqueue (st' : IdentityState) (hr : st'.Rested) (he : st'.event = .pending) :
      Ends st summary (.enqueue st')
  | arm (st' : IdentityState) (delay : Span) (cause : TriggerCause) (hr : st'.Rested)
      (he : st'.event = .quiet) (hp : st.event ≠ .pending) :
      Ends st summary (.arm st' delay cause)

theorem Ends.of_event_eq {st st' : IdentityState} {summary : DispatchSummary} {d : Decision}
    (h : Ends st' summary d) (heq : st'.event = st.event) : Ends st summary d := by
  cases h with
  | drop hp => exact .drop (heq ▸ hp)
  | release st' hr he hf hn => exact .release st' hr he hf hn
  | keep st' hr he hp => exact .keep st' hr he (heq ▸ hp)
  | enqueue st' hr he => exact .enqueue st' hr he
  | arm st' delay cause hr he hp => exact .arm st' delay cause hr he (heq ▸ hp)

section Finished
variable (config : SchedulerConfig) (st : IdentityState) (e : Error) (summary : DispatchSummary)

theorem afterTerminal_ends (reschedule : Option Span) (hr : st.Rested)
    (he : st.event = .quiet ∨ st.event = .pending) :
    Ends st summary (afterTerminal st e reschedule) := by
  unfold afterTerminal
  dsimp only
  split
  · rename_i hev
    exact .enqueue _ ⟨hr.idle, hr.unqueued, hr.pending_causes⟩ (st.hasEvent_iff.mp hev)
  · rename_i hev
    have hp : st.event ≠ .pending := fun h => hev (st.hasEvent_iff.mpr h)
    have hquiet : st.event = .quiet := he.resolve_right hp
    cases reschedule with
    | none => exact .keep _ ⟨hr.idle, hr.unqueued, hr.pending_causes⟩ hquiet hp
    | some delay =>
      exact .arm _ delay _ ⟨hr.idle, hr.unqueued, hr.pending_causes⟩ hquiet hp

/-- An event that came in is handed on whether retries are off, left or used up. -/
theorem afterTransient_ends (hr : st.Rested) (he : st.event = .quiet ∨ st.event = .pending) :
    Ends st summary (afterTransient config st e) := by
  unfold afterTransient
  cases config.retry with
  | none =>
    dsimp only
    split
    · rename_i hev
      exact .enqueue _ ⟨hr.idle, hr.unqueued, hr.pending_causes⟩ (st.hasEvent_iff.mp hev)
    · rename_i hev
      have hp : st.event ≠ .pending := fun h => hev (st.hasEvent_iff.mpr h)
      exact .keep _ ⟨hr.idle, hr.unqueued, hr.pending_causes⟩ (he.resolve_right hp) hp
  | some policy =>
    dsimp only
    split
    · rename_i hev
      exact .enqueue _ ⟨hr.idle, hr.unqueued, hr.pending_causes⟩ (st.hasEvent_iff.mp hev)
    · rename_i hev
      have hp : st.event ≠ .pending := fun h => hev (st.hasEvent_iff.mpr h)
      have hquiet : st.event = .quiet := he.resolve_right hp
      generalize (st.retry.getD { policy := policy }).nextDelay = next
      obtain ⟨delay?, execution⟩ := next
      cases delay? with
      | some delay =>
        exact .arm _ delay _ ⟨hr.idle, hr.unqueued, hr.pending_causes⟩ hquiet hp
      | none =>
        cases config.maxInterval with
        | some interval =>
          exact .arm _ interval _ ⟨hr.idle, hr.unqueued, hr.pending_causes⟩ hquiet hp
        | none => exact .keep _ ⟨hr.idle, hr.unqueued, hr.pending_causes⟩ hquiet hp

theorem enqueue_marked_ends (cause : TriggerCause) (hr : st.Rested)
    (he : st.event = .quiet ∨ st.event = .pending) :
    Ends st summary (.enqueue (st.markEvent cause)) := by
  have heq := st.markEvent_of_accepts cause (st.acceptsEvents_iff.mpr he)
  rw [heq]
  exact .enqueue _
    ⟨hr.idle, hr.unqueued, fun _ => IdentityState.addCause_ne_nil st.causes cause⟩ rfl

/-- However a dispatch has failed, an event that came in meanwhile is handed on. -/
theorem afterFailure_ends (hr : st.Rested) (hreleased : st.event ≠ .released) :
    Ends st summary (afterFailure config st e summary) := by
  unfold afterFailure
  split
  · rename_i hd
    exact .drop (by rw [st.isDeleted_iff.mp hd]; decide)
  · rename_i hd
    have he : st.event = .quiet ∨ st.event = .pending := by
      cases hst : st.event with
      | quiet => exact Or.inl rfl
      | pending => exact Or.inr rfl
      | deleted => exact absurd (st.isDeleted_iff.mpr hst) hd
      | released => exact absurd hst hreleased
    cases Scheduler.classOf e summary.noRetry with
    | conflict => exact enqueue_marked_ends st summary .retry hr he
    | terminal => exact afterTerminal_ends st e summary summary.reschedule hr he
    | transient => exact afterTransient_ends config st e summary hr he

theorem afterIdleSuccess_ends (reschedule : Option Span) (hr : st.Rested)
    (he : st.event = .quiet) :
    Ends st summary (afterIdleSuccess config st reschedule) := by
  have hp : st.event ≠ .pending := by rw [he]; decide
  unfold afterIdleSuccess
  cases reschedule with
  | some delay =>
    dsimp only
    split
    · exact enqueue_marked_ends st summary .rescheduled hr (Or.inl he)
    · exact .arm st delay _ hr he hp
  | none =>
    cases config.maxInterval with
    | some interval => exact .arm st interval _ hr he hp
    | none => exact .keep st hr he hp

/-- After a success an event is handed on too, unless it goes with the finalizer. -/
theorem afterSuccess_ends (hr : st.Rested) (hreleased : st.event ≠ .released)
    (hn : summary.error = none) : Ends st summary (afterSuccess config st summary) := by
  unfold afterSuccess
  dsimp only
  have hrest : ({ st.cancelTimer with retry := none, lastFailure := none } :
      IdentityState).Rested := ⟨hr.idle, hr.unqueued, hr.pending_causes⟩
  split
  · rename_i hd
    exact .drop (by rw [st.isDeleted_iff.mp hd]; decide)
  rename_i hd
  split
  · rename_i hf
    refine .release _ ⟨hr.idle, hr.unqueued, ?_⟩ rfl hf hn
    intro he
    cases he
  split
  · rename_i hev
    exact .enqueue _ hrest (st.hasEvent_iff.mp hev)
  rename_i hev
  have hp : st.event ≠ .pending := fun h => hev (st.hasEvent_iff.mpr h)
  have hquiet : st.event = .quiet := by
    cases hst : st.event with
    | quiet => rfl
    | pending => exact absurd hst hp
    | deleted => exact absurd (st.isDeleted_iff.mpr hst) hd
    | released => exact absurd hst hreleased
  split
  · exact .drop hp
  · have h := afterIdleSuccess_ends config _ summary summary.reschedule hrest hquiet
    exact h.of_event_eq rfl

end Finished

/-- The end of a dispatch is decided in one of these ways. -/
theorem onFinished_ends (config : SchedulerConfig) (st : IdentityState)
    (summary : DispatchSummary) (hs : st.Sound) (hf : st.inFlight = true) :
    Ends st summary (onFinished config st summary) := by
  have hreleased : st.event ≠ .released := by
    intro he
    rw [hs.released_idle he] at hf
    cases hf
  have hrest : ({ st with inFlight := false } : IdentityState).Rested := by
    refine ⟨rfl, ?_, hs.pending_causes⟩
    cases hq : st.queued with
    | false => rfl
    | true =>
      rw [hs.queued_idle hq] at hf
      cases hf
  unfold onFinished
  dsimp only
  cases herr : summary.error with
  | some e =>
    have h := afterFailure_ends config _ e summary hrest hreleased
    exact h.of_event_eq rfl
  | none =>
    have h := afterSuccess_ends config _ summary hrest hreleased herr
    exact h.of_event_eq rfl

/-- What is decided at the end of a dispatch may be carried out in an orderly scheduler. -/
theorem Ends.proper {st : IdentityState} {summary : DispatchSummary} {d : Decision}
    (old : Option IdentityState) (h : Ends st summary d) : d.Proper old := by
  cases h with
  | drop hp => trivial
  | release st' hr he hf hn =>
    exact IdentityState.Succeeds.of_not_pending st' old
      (hr.sound st' (by rw [he]; decide)) (by rw [he]; decide)
  | keep st' hr he hp =>
    exact IdentityState.Succeeds.of_not_pending st' old
      (hr.sound st' (by rw [he]; decide)) (by rw [he]; decide)
  | enqueue st' hr he =>
    refine ⟨hr.sound st' (by rw [he]; decide), he, fun hq => ?_⟩
    rw [hr.unqueued] at hq
    cases hq
  | arm st' delay cause hr he hp =>
    exact IdentityState.Succeeds.of_not_pending st' old
      (hr.sound st' (by rw [he]; decide)) (by rw [he]; decide)

end Decision
end Reconciliation
