import Reconciliation.Proofs.Scheduler.Coherence

/-!
Deletions that wait for the end of a dispatch. An identity is marked as deleted by the trigger
that reports the deletion and by nothing else. The mark is gone when the dispatch that was in
flight then ends, and before that none begins.
-/
namespace Reconciliation

namespace Decision

/-- The event state that a decision stores. -/
def event (d : Decision) : EventState := (d.state?.getD {}).event

theorem Takes.deleted_before {old : Option IdentityState} {d : Decision} (h : Takes old d)
    (hd : d.event = .deleted) : (old.getD {}).event = .deleted := by
  cases h with
  | recorded st hs hp hc hb => cases hp.symm.trans hd
  | offered st hs hp hc => cases hp.symm.trans hd
  | ignored st hs he hp => exact he.symm.trans hd
  | armed st delay cause hs he hc => exact he.symm.trans hd

theorem Ends.event_ne_deleted {st : IdentityState} {summary : DispatchSummary} {d : Decision}
    (h : Ends st summary d) : d.event ≠ .deleted := by
  intro hd
  cases h with
  | drop hp => cases hd
  | release st' hr he hf hn => cases he.symm.trans hd
  | keep st' hr he hp => cases he.symm.trans hd
  | enqueue st' hr he => cases he.symm.trans hd
  | arm st' delay cause hr he hp => cases he.symm.trans hd

end Decision

namespace Scheduler

theorem event_getD_map (f : IdentityState → IdentityState) (hf : ∀ st, (f st).event = st.event)
    (old : Option IdentityState) : ((old.map f).getD {}).event = (old.getD {}).event := by
  cases old with
  | none => rfl
  | some st => exact hf st

theorem event_stored (s : Scheduler) (d : Decision) :
    ((s.stored d).getD {}).event = d.event := by
  cases d with
  | enqueue st =>
    change (s.offered st).event = st.event
    unfold offered
    split <;> rfl
  | _ => rfl

theorem event_carryOut (s : Scheduler) (id k : ResourceId) (d : Decision) :
    ((s.carryOut id d).stateOf k).event = if k = id then d.event else (s.stateOf k).event := by
  unfold stateOf
  rw [stateOf?_carryOut]
  split
  · exact s.event_stored d
  · rfl

/-- A decision that marks nothing as deleted leaves only old marks. -/
theorem deleted_before_takes (s : Scheduler) (id k : ResourceId) (d? : Option Decision)
    (hd : ∀ d, d? = some d → Decision.Takes (s.stateOf? id) d)
    (h : ((s.carryOut? id d?).stateOf k).event = .deleted) :
    (s.stateOf k).event = .deleted := by
  cases d? with
  | none => exact h
  | some d =>
    change ((s.carryOut id d).stateOf k).event = .deleted at h
    rw [event_carryOut] at h
    split at h
    · rename_i hk
      rw [hk]
      exact (hd d rfl).deleted_before h
    · exact h

/-- A trigger marks an identity as deleted only if it reports the deletion of that very object. -/
theorem deleted_before_trigger (s : Scheduler) (id k : ResourceId) (cause : TriggerCause)
    (terminating : Bool) (h : ((s.trigger id cause terminating).stateOf k).event = .deleted) :
    (s.stateOf k).event = .deleted ∨ (k = id ∧ cause = .deleted) := by
  rw [trigger_eq] at h
  by_cases hc : cause = .deleted
  · by_cases hk : k = id
    · exact Or.inr ⟨hk, hc⟩
    · refine Or.inl ?_
      cases hdecision : Decision.onTrigger (s.stateOf? id) cause terminating with
      | none =>
        rw [hdecision] at h
        exact h
      | some d =>
        rw [hdecision] at h
        change ((s.carryOut id d).stateOf k).event = .deleted at h
        rw [event_carryOut, if_neg hk] at h
        exact h
  · exact Or.inl (s.deleted_before_takes id k _
      (fun d hd => Decision.onTrigger_takes _ cause terminating hc d hd) h)

theorem deleted_before_run (s s' : Scheduler) (hrun : s.run = .ok s') (k : ResourceId)
    (h : (s'.stateOf k).event = .deleted) : (s.stateOf k).event = .deleted := by
  obtain ⟨_, rfl⟩ := run_eq_ok s s' hrun
  unfold stateOf at h ⊢
  rw [stateOf?_enqueuePending _ rfl, event_getD_map _ IdentityState.event_promoted] at h
  exact h

theorem deleted_before_ended (s : Scheduler) (k : ResourceId)
    (h : (s.ended.stateOf k).event = .deleted) : (s.stateOf k).event = .deleted := by
  unfold stateOf at h ⊢
  rw [stateOf?_ended, event_getD_map IdentityState.cancelTimer fun _ => rfl] at h
  exact h

/-- A dispatch begins only for an identity that is not marked. -/
theorem deleted_before_begin? (s s' : Scheduler) (id k : ResourceId)
    (hs : ∀ st, s.stateOf? id = some st → st.Sound) (request : ReconciliationRequest)
    (retry : Option RetryInfo) (hb : s.begin? id = some ((request, retry), s'))
    (h : (s'.stateOf k).event = .deleted) :
    (s.stateOf k).event = .deleted ∧ request.id ≠ k := by
  obtain ⟨st, hst, hq, _, rfl, _, rfl⟩ := begin?_eq_some s id request retry s' hb
  change ((s.carryOut id (.keep st.begun)).stateOf k).event = .deleted at h
  rw [event_carryOut] at h
  split at h
  · have hpending := (hs st hst).queued_pending hq
    change st.begun.event = .deleted at h
    simp [IdentityState.begun, IdentityState.hasEvent, hpending] at h
  · rename_i hk
    exact ⟨h, Ne.symm hk⟩

/-- The end of a dispatch takes the mark away. -/
theorem deleted_before_finished (s : Scheduler) (hs : s.Orderly) (id k : ResourceId)
    (summary : DispatchSummary) (hf : s.isInFlight id = true)
    (h : ((s.finished id summary).stateOf k).event = .deleted) :
    (s.stateOf k).event = .deleted ∧ k ≠ id := by
  obtain ⟨st, hst, hflight⟩ := (s.isInFlight_iff id).mp hf
  obtain ⟨stats, heq⟩ := finished_eq s id summary st hst
  have hends := Decision.onFinished_ends s.config st summary (hs id st hst).sound hflight
  rw [heq, event_carryOut] at h
  split at h
  · exact absurd h hends.event_ne_deleted
  · rename_i hk
    exact ⟨h, hk⟩

end Scheduler

namespace Activity

/-- The moves with which a dispatch of the identity begins or ends. -/
inductive Bounds (id : ResourceId) : Move → Prop
  | begin (request : ReconciliationRequest) (retry : Option RetryInfo) (hid : request.id = id) :
      Bounds id (.begin request retry)
  | finish (summary : DispatchSummary) : Bounds id (.finish id summary)

/-- An identity that is marked as deleted was so before, unless the deletion was just reported,
and no dispatch of it has just begun or ended. -/
theorem Step.deleted_before {c : SchedulerConfig} {a b : Activity} {m : Move}
    (hstep : Step a m b) (hc : Coherent c a) (k : ResourceId)
    (h : (b.scheduler.stateOf k).event = .deleted) :
    (∃ terminating, m = .submit k .deleted terminating) ∨
      ((a.scheduler.stateOf k).event = .deleted ∧ ¬Bounds k m) := by
  cases hstep with
  | submit id cause terminating =>
    rcases Scheduler.deleted_before_trigger _ id k cause terminating h with hbefore | ⟨rfl, rfl⟩
    · exact Or.inr ⟨hbefore, fun hm => by cases hm⟩
    · exact Or.inl ⟨terminating, rfl⟩
  | reschedule id delay =>
    dsimp only at h
    rw [Scheduler.reschedule_eq] at h
    exact Or.inr ⟨Scheduler.deleted_before_takes _ id k _
      (fun d hd => Decision.onReschedule_takes _ delay d hd) h, fun hm => by cases hm⟩
  | fire t ht =>
    dsimp only at h
    rw [Scheduler.timerFired_eq] at h
    exact Or.inr ⟨Scheduler.deleted_before_takes _ t.id k _
      (fun d hd => Decision.onTimer_takes _ t d hd) h, fun hm => by cases hm⟩
  | run s hs => exact Or.inr ⟨Scheduler.deleted_before_run _ s hs k h, fun hm => by cases hm⟩
  | begin id rest request retry s hl hr hb =>
    have hsound : ∀ st, a.scheduler.stateOf? id = some st → st.Sound :=
      fun st hst => (hc.orderly id st hst).sound
    obtain ⟨hbefore, hk⟩ := Scheduler.deleted_before_begin? { a.scheduler with ready := rest } s id
      k hsound request retry hb h
    refine Or.inr ⟨hbefore, fun hm => ?_⟩
    cases hm with
    | begin request retry hid => exact hk hid
  | finish id summary hf hcr =>
    obtain ⟨hbefore, hk⟩ := Scheduler.deleted_before_finished _ hc.orderly id k summary
      ((hc.tracked id).mp hf) h
    refine Or.inr ⟨hbefore, fun hm => ?_⟩
    cases hm with
    | finish summary => exact hk rfl
  | conclude hl hf =>
    exact Or.inr ⟨Scheduler.deleted_before_ended _ k h, fun hm => by cases hm⟩
  | refuse | stop | takeWorker | discard | crash | leave =>
    exact Or.inr ⟨h, fun hm => by cases hm⟩

end Activity
end Reconciliation
