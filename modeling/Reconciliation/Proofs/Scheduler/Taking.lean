import Reconciliation.Proofs.Scheduler.Order

/-!
What the scheduler decides on triggers, calls to reschedule and fired timers. They record an
event in the state of the identity or leave its events alone, and never take an event away;
only the deletion of the object does that.
-/
namespace Reconciliation

/-- The states agree about where the identity stands. -/
structure IdentityState.SamePlace (st' st : IdentityState) : Prop where
  inFlight : st'.inFlight = st.inFlight
  queued : st'.queued = st.queued

namespace Decision

/-- The decisions on a trigger of an existing object, on a call to reschedule and on a fired
timer. Triggers of a deleted object are left out. -/
inductive Takes (old : Option IdentityState) : Decision → Prop
  | recorded (st : IdentityState) (hs : st.SamePlace (old.getD {})) (hp : st.event = .pending)
      (hc : st.causes ≠ []) (hb : st.inFlight = true ∨ st.queued = true) :
      Takes old (.keep st)
  | offered (st : IdentityState) (hs : st.SamePlace (old.getD {})) (hp : st.event = .pending)
      (hc : st.causes ≠ []) : Takes old (.enqueue st)
  | ignored (st : IdentityState) (hs : st.SamePlace (old.getD {}))
      (he : st.event = (old.getD {}).event) (hp : st.event ≠ .pending) : Takes old (.keep st)
  | armed (st : IdentityState) (delay : Span) (cause : TriggerCause)
      (hs : st.SamePlace (old.getD {})) (he : st.event = (old.getD {}).event)
      (hc : st.causes = (old.getD {}).causes) : Takes old (.arm st delay cause)

/-- A state that takes an event is offered to the ready queue or waits for its turn. -/
theorem record_takes (old : Option IdentityState) (st : IdentityState) (cause : TriggerCause)
    (hs : st.SamePlace (old.getD {})) (hacc : st.acceptsEvents = true) :
    Takes old (record st cause) := by
  have heq := st.markEvent_of_accepts cause hacc
  have hcauses := IdentityState.addCause_ne_nil st.causes cause
  unfold record
  simp only [hacc, if_true]
  split
  · rw [heq]
    exact .offered _ ⟨hs.inFlight, hs.queued⟩ rfl hcauses
  · rename_i hd
    rw [IdentityState.isDispatchable_iff, heq] at hd
    rw [heq]
    refine .recorded _ ⟨hs.inFlight, hs.queued⟩ rfl hcauses ?_
    cases hf : st.inFlight with
    | true => exact Or.inl rfl
    | false =>
      cases hq : st.queued with
      | true => exact Or.inr rfl
      | false => exact absurd ⟨rfl, hf, hq⟩ hd

theorem record_ignores (old : Option IdentityState) (st : IdentityState) (cause : TriggerCause)
    (hs : st.SamePlace (old.getD {})) (he : st.event = (old.getD {}).event)
    (hacc : st.acceptsEvents ≠ true) : Takes old (record st cause) := by
  unfold record
  rw [if_neg hacc]
  rw [Ne, IdentityState.acceptsEvents_iff, not_or] at hacc
  exact .ignored st hs he hacc.2

/-- A trigger other than the report of a deletion takes no event away. -/
theorem onTrigger_takes (old : Option IdentityState) (cause : TriggerCause)
    (terminating : Bool) (hc : cause ≠ .deleted) (d : Decision)
    (hd : onTrigger old cause terminating = some d) : Takes old d := by
  unfold onTrigger at hd
  rw [if_neg hc] at hd
  dsimp only at hd
  split at hd
  · split at hd
    · cases hd
    · obtain rfl := Option.some.inj hd
      exact record_takes old _ cause ⟨rfl, rfl⟩ rfl
  · obtain rfl := Option.some.inj hd
    by_cases hacc : (old.getD {}).acceptsEvents = true
    · exact record_takes old _ cause ⟨rfl, rfl⟩ hacc
    · exact record_ignores old _ cause ⟨rfl, rfl⟩ rfl hacc

theorem onReschedule_takes (old : Option IdentityState) (delay : Span) (d : Decision)
    (hd : onReschedule old delay = some d) : Takes old d := by
  unfold onReschedule at hd
  dsimp only at hd
  split at hd
  · cases hd
  · obtain rfl := Option.some.inj hd
    exact .armed _ delay .rescheduled ⟨rfl, rfl⟩ rfl rfl

/-- Neither does a timer. -/
theorem onTimer_takes (old : Option IdentityState) (t : ArmedTimer) (d : Decision)
    (hd : onTimer old t = some d) : Takes old d := by
  obtain ⟨st, hst, hd⟩ := Option.bind_eq_some_iff.mp hd
  have hplace : st.cancelTimer.SamePlace (old.getD {}) := by
    rw [hst]
    exact ⟨rfl, rfl⟩
  have hevent : st.cancelTimer.event = (old.getD {}).event := by rw [hst]; rfl
  split at hd
  · obtain rfl := Option.some.inj hd
    split
    · rename_i hacc
      rw [IdentityState.markEvent_of_accepts _ t.cause hacc]
      exact .offered _ ⟨hplace.inFlight, hplace.queued⟩ rfl
        (IdentityState.addCause_ne_nil _ t.cause)
    · rename_i hacc
      rw [IdentityState.acceptsEvents_iff, not_or] at hacc
      exact .ignored _ hplace hevent hacc.2
  · cases hd

/-- The state of an identity, a fresh one if it has none, is sound. -/
theorem sound_getD (old : Option IdentityState) (hold : ∀ o, old = some o → o.Sound) :
    (old.getD {}).Sound := by
  cases old with
  | none => exact IdentityState.sound_fresh
  | some st => exact hold st rfl

theorem queued_of_samePlace (old : Option IdentityState) (st : IdentityState)
    (hs : st.SamePlace (old.getD {})) (hq : st.queued = true) :
    ∃ o, old = some o ∧ o.queued = true := by
  rw [hs.queued] at hq
  cases old with
  | none => cases hq
  | some o => exact ⟨o, rfl, hq⟩

/-- A state that takes an event where a sound one stood is sound. -/
theorem sound_pending (old : Option IdentityState) (hold : ∀ o, old = some o → o.Sound)
    (st : IdentityState) (hs : st.SamePlace (old.getD {})) (hp : st.event = .pending)
    (hc : st.causes ≠ []) : st.Sound where
  queued_idle hq := by
    rw [hs.queued] at hq
    rw [hs.inFlight]
    exact (sound_getD old hold).queued_idle hq
  queued_pending _ := hp
  deleted_inFlight he := by
    rw [hp] at he
    cases he
  released_idle he := by
    rw [hp] at he
    cases he
  pending_causes _ := hc

theorem sound_same (old : Option IdentityState) (hold : ∀ o, old = some o → o.Sound)
    (st : IdentityState) (hs : st.SamePlace (old.getD {}))
    (he : st.event = (old.getD {}).event) (hc : st.event = .pending → st.causes ≠ []) :
    st.Sound where
  queued_idle hq := by
    rw [hs.queued] at hq
    rw [hs.inFlight]
    exact (sound_getD old hold).queued_idle hq
  queued_pending hq := by
    rw [hs.queued] at hq
    rw [he]
    exact (sound_getD old hold).queued_pending hq
  deleted_inFlight hd := by
    rw [he] at hd
    rw [hs.inFlight]
    exact (sound_getD old hold).deleted_inFlight hd
  released_idle hr := by
    rw [he] at hr
    rw [hs.inFlight]
    exact (sound_getD old hold).released_idle hr
  pending_causes := hc

/-- A decision that takes no event away may be carried out in an orderly scheduler. -/
theorem Takes.proper {old : Option IdentityState} {d : Decision}
    (hold : ∀ o, old = some o → o.Sound) (h : Takes old d) : d.Proper old := by
  cases h with
  | recorded st hs hp hc hb =>
    exact ⟨sound_pending old hold st hs hp hc, queued_of_samePlace old st hs,
      fun _ => hb.imp_right Or.inl⟩
  | offered st hs hp hc =>
    exact ⟨sound_pending old hold st hs hp hc, hp, queued_of_samePlace old st hs⟩
  | ignored st hs he hp =>
    exact IdentityState.Succeeds.of_not_pending st old
      (sound_same old hold st hs he fun h => absurd h hp) hp
  | armed st delay cause hs he hc =>
    have hcauses : st.event = .pending → st.causes ≠ [] := by
      rw [he, hc]
      exact (sound_getD old hold).pending_causes
    refine ⟨sound_same old hold st hs he hcauses, queued_of_samePlace old st hs, fun hp => ?_⟩
    cases old with
    | none =>
      rw [he] at hp
      cases hp
    | some o => exact Or.inr (Or.inr ⟨o, rfl, he ▸ hp, hs.inFlight.symm, hs.queued.symm⟩)

/-- So may the decision on the report of a deletion. -/
theorem onDeleted_proper (st : IdentityState) (old : Option IdentityState) (hs : st.Sound) :
    (onDeleted st).Proper old := by
  unfold onDeleted
  cases hf : st.inFlight with
  | false => trivial
  | true =>
    have hunqueued : st.queued ≠ true := by
      intro hq
      rw [hs.queued_idle hq] at hf
      cases hf
    refine IdentityState.Succeeds.of_not_pending _ old ⟨hs.queued_idle,
      fun hq => absurd hq hunqueued, fun _ => hf, ?_, ?_⟩ ?_
    · intro he
      cases he
    · intro he
      cases he
    · intro he
      cases he

theorem onTrigger_proper (old : Option IdentityState) (cause : TriggerCause)
    (terminating : Bool) (hold : ∀ o, old = some o → o.Sound) (d : Decision)
    (hd : onTrigger old cause terminating = some d) : d.Proper old := by
  by_cases hc : cause = .deleted
  · unfold onTrigger at hd
    rw [if_pos hc] at hd
    obtain ⟨st, hst, rfl⟩ := Option.map_eq_some_iff.mp hd
    exact onDeleted_proper st old (hold st hst)
  · exact (onTrigger_takes old cause terminating hc d hd).proper hold

end Decision
end Reconciliation
