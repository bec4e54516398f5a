import Reconciliation.Proofs.Scheduler.Coherence

/-!
Events that wait for a dispatch. A trigger or a timer records an event in the state of its
identity, and the event stays there through any number of stops and calls of the loop. It is
taken away by the dispatch that answers it, or given up with the object or its finalizer.
-/
namespace Reconciliation

namespace Decision

/-- The state that is stored has an event. -/
def HasEvent (d : Decision) : Prop := ∃ st, d.state? = some st ∧ st.event = .pending

theorem Takes.hasEvent {old : Option IdentityState} {d : Decision} (h : Takes old d)
    (o : IdentityState) (ho : old = some o) (hp : o.event = .pending) : d.HasEvent := by
  subst ho
  cases h with
  | recorded st hs he hc hb => exact ⟨st, rfl, he⟩
  | offered st hs he hc => exact ⟨st, rfl, he⟩
  | ignored st hs he hno => exact absurd (he.trans hp) hno
  | armed st delay cause hs he hc => exact ⟨st, rfl, he.trans hp⟩

/-- The end of a dispatch hands an event on, unless it reports that the finalizer is gone. -/
theorem Ends.hasEvent {st : IdentityState} {summary : DispatchSummary} {d : Decision}
    (h : Ends st summary d) (hp : st.event = .pending) :
    d.HasEvent ∨ summary.finalizerRemoved = true := by
  cases h with
  | drop hno => exact absurd hp hno
  | release st' hr he hf hn => exact Or.inr hf
  | keep st' hr he hno => exact absurd hp hno
  | enqueue st' hr he => exact Or.inl ⟨st', rfl, he⟩
  | arm st' delay cause hr he hno => exact absurd hp hno

theorem record_hasEvent (st : IdentityState) (cause : TriggerCause)
    (hacc : st.acceptsEvents = true) : (record st cause).HasEvent := by
  unfold record
  simp only [hacc, if_true]
  rw [st.markEvent_of_accepts cause hacc]
  split
  · exact ⟨_, rfl, rfl⟩
  · exact ⟨_, rfl, rfl⟩

/-- A trigger that is neither the report of a deletion nor ignored leaves an event behind. -/
theorem onTrigger_hasEvent (old : Option IdentityState) (cause : TriggerCause)
    (terminating : Bool) (hc : cause ≠ .deleted) (hd : (old.getD {}).event ≠ .deleted)
    (hr : (old.getD {}).event = .released → terminating = false) :
    ∃ d, onTrigger old cause terminating = some d ∧ d.HasEvent := by
  unfold onTrigger
  rw [if_neg hc]
  dsimp only
  split
  · rename_i he
    rw [hr he, if_neg (by decide)]
    exact ⟨_, rfl, record_hasEvent _ cause rfl⟩
  · rename_i he
    refine ⟨_, rfl, record_hasEvent _ cause ?_⟩
    rw [IdentityState.acceptsEvents_iff]
    cases hst : (old.getD {}).event with
    | quiet => exact Or.inl rfl
    | pending => exact Or.inr rfl
    | deleted => exact absurd hst hd
    | released => exact absurd hst he

theorem onTimer_hasEvent (st : IdentityState) (t : ArmedTimer) (ht : st.timer = some t.token)
    (hacc : st.acceptsEvents = true) :
    ∃ d, onTimer (some st) t = some d ∧ d.HasEvent := by
  have hacc' : st.cancelTimer.acceptsEvents = true := hacc
  unfold onTimer
  simp only [Option.bind_some, ht, if_true, hacc']
  rw [IdentityState.markEvent_of_accepts _ t.cause hacc']
  exact ⟨_, rfl, _, rfl, rfl⟩

end Decision

namespace Scheduler

/-- An event of the identity waits for a dispatch. -/
def Awaits (s : Scheduler) (id : ResourceId) : Prop :=
  ∃ st, s.stateOf? id = some st ∧ st.event = .pending

theorem stored_hasEvent (s : Scheduler) (d : Decision) (h : d.HasEvent) :
    ∃ st, s.stored d = some st ∧ st.event = .pending := by
  obtain ⟨st, hst, hp⟩ := h
  cases d with
  | drop => cases hst
  | keep st' =>
    cases hst
    exact ⟨st, rfl, hp⟩
  | enqueue st' =>
    cases hst
    refine ⟨s.offered st, rfl, ?_⟩
    unfold offered
    split <;> exact hp
  | arm st' delay cause =>
    cases hst
    exact ⟨_, rfl, hp⟩

theorem awaits_carryOut (s : Scheduler) (id : ResourceId) (d : Decision) (h : d.HasEvent) :
    (s.carryOut id d).Awaits id := by
  obtain ⟨st, hst, hp⟩ := s.stored_hasEvent d h
  refine ⟨st, ?_, hp⟩
  rw [stateOf?_carryOut, if_pos rfl]
  exact hst

theorem awaits_carryOut_of_ne (s : Scheduler) (id k : ResourceId) (d : Decision)
    (hk : k ≠ id) (h : s.Awaits k) : (s.carryOut id d).Awaits k := by
  obtain ⟨st, hst, hp⟩ := h
  refine ⟨st, ?_, hp⟩
  rw [stateOf?_carryOut, if_neg hk]
  exact hst

/-- A decision that takes no event away loses none. -/
theorem awaits_carryOut? (s : Scheduler) (id k : ResourceId) (d? : Option Decision)
    (hd : ∀ d, d? = some d → k = id → s.Awaits id → d.HasEvent) (h : s.Awaits k) :
    (s.carryOut? id d?).Awaits k := by
  cases d? with
  | none => exact h
  | some d =>
    by_cases hk : k = id
    · subst hk
      exact s.awaits_carryOut k d (hd d rfl rfl h)
    · exact s.awaits_carryOut_of_ne id k d hk h

theorem awaits_of_takes (s : Scheduler) (id k : ResourceId) (d? : Option Decision)
    (hd : ∀ d, d? = some d → Decision.Takes (s.stateOf? id) d) (h : s.Awaits k) :
    (s.carryOut? id d?).Awaits k := by
  refine s.awaits_carryOut? id k d? (fun d hsome _ hwaits => ?_) h
  obtain ⟨st, hst, hp⟩ := hwaits
  exact (hd d hsome).hasEvent st hst hp

theorem awaits_trigger (s : Scheduler) (id k : ResourceId) (cause : TriggerCause)
    (terminating : Bool) (h : s.Awaits k) :
    (s.trigger id cause terminating).Awaits k ∨ (k = id ∧ cause = .deleted) := by
  rw [trigger_eq]
  by_cases hc : cause = .deleted
  · by_cases hk : k = id
    · exact Or.inr ⟨hk, hc⟩
    · exact Or.inl (s.awaits_carryOut? id k _ (fun _ _ hid _ => absurd hid hk) h)
  · exact Or.inl (s.awaits_of_takes id k _
      (fun d hd => Decision.onTrigger_takes _ cause terminating hc d hd) h)

theorem awaits_reschedule (s : Scheduler) (id k : ResourceId) (delay : Span)
    (h : s.Awaits k) : (s.reschedule id delay).Awaits k := by
  rw [reschedule_eq]
  exact s.awaits_of_takes id k _ (fun d hd => Decision.onReschedule_takes _ delay d hd) h

theorem awaits_timerFired (s : Scheduler) (t : ArmedTimer) (k : ResourceId)
    (h : s.Awaits k) : (s.timerFired t).Awaits k := by
  rw [timerFired_eq]
  exact s.awaits_of_takes t.id k _ (fun d hd => Decision.onTimer_takes _ t d hd) h

/-- The end of a dispatch leaves events alone, but for the one that goes with its finalizer. -/
theorem awaits_finished (s : Scheduler) (hs : s.Orderly) (id k : ResourceId)
    (summary : DispatchSummary) (hf : s.isInFlight id = true) (h : s.Awaits k) :
    (s.finished id summary).Awaits k ∨ (k = id ∧ summary.finalizerRemoved = true) := by
  obtain ⟨st, hst, hflight⟩ := (s.isInFlight_iff id).mp hf
  obtain ⟨stats, heq⟩ := finished_eq s id summary st hst
  have hends := Decision.onFinished_ends s.config st summary (hs id st hst).sound hflight
  rw [heq]
  by_cases hk : k = id
  · subst hk
    obtain ⟨st', hst', hp⟩ := h
    obtain rfl : st = st' := Option.some.inj (hst.symm.trans hst')
    rcases hends.hasEvent hp with hevent | hremoved
    · exact Or.inl (awaits_carryOut _ k _ hevent)
    · exact Or.inr ⟨rfl, hremoved⟩
  · exact Or.inl (awaits_carryOut_of_ne _ id k _ hk h)

theorem awaits_run (s s' : Scheduler) (hrun : s.run = .ok s') (k : ResourceId)
    (h : s.Awaits k) : s'.Awaits k := by
  obtain ⟨_, rfl⟩ := run_eq_ok s s' hrun
  obtain ⟨st, hst, hp⟩ := h
  refine ⟨st.promoted, ?_, ?_⟩
  · rw [stateOf?_enqueuePending _ rfl]
    change (s.stateOf? k).map IdentityState.promoted = _
    rw [hst, Option.map_some]
  · unfold IdentityState.promoted
    split <;> exact hp

theorem awaits_ended (s : Scheduler) (k : ResourceId) (h : s.Awaits k) : s.ended.Awaits k := by
  obtain ⟨st, hst, hp⟩ := h
  refine ⟨st.cancelTimer, ?_, hp⟩
  rw [stateOf?_ended, hst, Option.map_some]

/-- A dispatch takes only the event of its own identity, and has a cause. -/
theorem awaits_begin? (s s' : Scheduler) (id k : ResourceId)
    (hs : ∀ st, s.stateOf? id = some st → st.Sound)
    (request : ReconciliationRequest) (retry : Option RetryInfo)
    (hb : s.begin? id = some ((request, retry), s')) (h : s.Awaits k) :
    s'.Awaits k ∨ (request.id = k ∧ request.causes ≠ []) := by
  obtain ⟨st, hst, hq, _, rfl, _, rfl⟩ := begin?_eq_some s id request retry s' hb
  by_cases hk : k = id
  · have hsound := hs st hst
    exact Or.inr ⟨hk.symm, hsound.pending_causes (hsound.queued_pending hq)⟩
  · exact Or.inl (s.awaits_carryOut_of_ne id k (.keep st.begun) hk h)

end Scheduler

namespace Activity

/-- The moves that may take the event of an identity away. -/
inductive Consumes (id : ResourceId) : Move → Prop
  | begin (request : ReconciliationRequest) (retry : Option RetryInfo) (hid : request.id = id)
      (hc : request.causes ≠ []) : Consumes id (.begin request retry)
  | deleted (terminating : Bool) : Consumes id (.submit id .deleted terminating)
  | finish (summary : DispatchSummary) (hf : summary.finalizerRemoved = true) :
      Consumes id (.finish id summary)

/-- The moves that record an event for an identity: a trigger, unless the object is gone or
triggers of the terminating object are ignored, and the timer that the state names. -/
inductive Records (s : Scheduler) (id : ResourceId) : Move → Prop
  | submit (cause : TriggerCause) (terminating : Bool) (hc : cause ≠ .deleted)
      (hd : (s.stateOf id).event ≠ .deleted)
      (hr : (s.stateOf id).event = .released → terminating = false) :
      Records s id (.submit id cause terminating)
  | fire (t : ArmedTimer) (st : IdentityState) (hid : t.id = id)
      (hst : s.stateOf? id = some st) (ht : st.timer = some t.token)
      (hacc : st.acceptsEvents = true) : Records s id (.fire t)

/-- An event that waits goes on waiting, unless the step consumes it. -/
theorem Step.awaits {c : SchedulerConfig} {a b : Activity} {m : Move} (hstep : Step a m b)
    (hc : Coherent c a) (k : ResourceId) (h : a.scheduler.Awaits k) :
    b.scheduler.Awaits k ∨ Consumes k m := by
  cases hstep with
  | submit id cause terminating =>
    rcases Scheduler.awaits_trigger _ id k cause terminating h with hwaits | ⟨rfl, rfl⟩
    · exact Or.inl hwaits
    · exact Or.inr (.deleted terminating)
  | reschedule id delay => exact Or.inl (Scheduler.awaits_reschedule _ id k delay h)
  | fire t ht => exact Or.inl (Scheduler.awaits_timerFired _ t k h)
  | run s hs => exact Or.inl (Scheduler.awaits_run _ s hs k h)
  | begin id rest request retry s hl hr hb =>
    have hsound : ∀ st, a.scheduler.stateOf? id = some st → st.Sound :=
      fun st hst => (hc.orderly id st hst).sound
    rcases Scheduler.awaits_begin? { a.scheduler with ready := rest } s id k hsound request
      retry hb h with hwaits | ⟨hid, hne⟩
    · exact Or.inl hwaits
    · exact Or.inr (.begin request retry hid hne)
  | finish id summary hf hcr =>
    have hflight := (hc.tracked id).mp hf
    rcases Scheduler.awaits_finished _ hc.orderly id k summary hflight h with hwaits | ⟨rfl, hr⟩
    · exact Or.inl hwaits
    · exact Or.inr (.finish summary hr)
  | conclude hl hf => exact Or.inl (Scheduler.awaits_ended _ k h)
  | refuse | stop | takeWorker | discard | crash | leave => exact Or.inl h

theorem Trace.awaits {c : SchedulerConfig} {a b : Activity} {ms : List Move}
    (h : Trace a ms b) (hc : Coherent c a) (k : ResourceId) (hwaits : a.scheduler.Awaits k) :
    b.scheduler.Awaits k ∨ ∃ m ∈ ms, Consumes k m := by
  induction h with
  | nil a => exact Or.inl hwaits
  | cons hstep _ ih =>
    rcases hstep.awaits hc k hwaits with hnext | hconsumed
    · rcases ih (hstep.coherent hc) hnext with hlast | ⟨m, hm, hconsumed⟩
      · exact Or.inl hlast
      · exact Or.inr ⟨m, List.mem_cons_of_mem _ hm, hconsumed⟩
    · exact Or.inr ⟨_, List.mem_cons_self, hconsumed⟩

/-- After a step that records an event, the event waits. -/
theorem Step.records {a b : Activity} {m : Move} (hstep : Step a m b) (k : ResourceId)
    (h : Records a.scheduler k m) : b.scheduler.Awaits k := by
  cases h with
  | submit cause terminating hc hd hr =>
    cases hstep with
    | submit =>
      obtain ⟨d, hsome, hevent⟩ := Decision.onTrigger_hasEvent (a.scheduler.stateOf? k)
        cause terminating hc hd hr
      dsimp only
      rw [Scheduler.trigger_eq, hsome]
      exact Scheduler.awaits_carryOut _ k d hevent
  | fire t st hid hst ht hacc =>
    subst hid
    cases hstep with
    | fire =>
      obtain ⟨d, hsome, hevent⟩ := Decision.onTimer_hasEvent st t ht hacc
      dsimp only
      rw [Scheduler.timerFired_eq, hst, hsome]
      exact Scheduler.awaits_carryOut _ t.id d hevent

/-- No accepted event is lost. While the scheduler runs, an event waits only for the end of a
dispatch or in the ready queue. Once recorded it stays, whatever happens, until a dispatch with
a cause takes it or it is given up with the object or its finalizer. -/
theorem Reachable.no_event_lost (c : SchedulerConfig) (a : Activity) (h : Reachable c a)
    (id : ResourceId) :
    (a.scheduler.running = true →
      ∀ st, a.scheduler.stateOf? id = some st → st.event = .pending →
        st.inFlight = true ∨ (st.queued = true ∧ id ∈ a.scheduler.ready)) ∧
    (∀ ms b, Trace a ms b → a.scheduler.Awaits id →
      b.scheduler.Awaits id ∨ ∃ m ∈ ms, Consumes id m) ∧
    (∀ m b, Step a m b → Records a.scheduler id m → b.scheduler.Awaits id) := by
  have hc := h.coherent
  refine ⟨fun hr st hst hp => ?_, fun ms b htrace => htrace.awaits hc id,
    fun m b hstep => hstep.records id⟩
  have hfits := hc.orderly id st hst
  rcases hfits.prompt hr hp with hf | hq
  · exact Or.inl hf
  · exact Or.inr ⟨hq, hfits.in_ready hq⟩

/-- An identity that is triggered before the scheduler runs, stopped and run again. -/
def lateStart (id : ResourceId) : List Move :=
  [.submit id .added false, .run, .stop, .leave, .conclude, .run]

/-- A trigger that came before the first of two calls of the loop is still in the queue. -/
theorem no_event_lost_lateStart :
    ∃ a, Reachable {} a ∧ a.scheduler.running = true ∧
      ∃ st, a.scheduler.stateOf? ⟨"App", none, "app"⟩ = some st ∧ st.event = .pending ∧
        (st.inFlight = true ∨
          (st.queued = true ∧ ⟨"App", none, "app"⟩ ∈ a.scheduler.ready)) := by
  have hrun : ((fresh {}).replay? (lateStart ⟨"App", none, "app"⟩)).any (fun a =>
      a.scheduler.running &&
        (a.scheduler.stateOf? ⟨"App", none, "app"⟩).any (fun st => st.event = .pending)) = true := by
    decide
  obtain ⟨a, hreplay, hwaits⟩ := (Option.any_eq_true _ _).mp hrun
  obtain ⟨hrunning, hstate⟩ := Bool.and_eq_true_iff.mp hwaits
  obtain ⟨st, hst, hevent⟩ := (Option.any_eq_true _ _).mp hstate
  have hpending : st.event = .pending := of_decide_eq_true hevent
  have hreachable : Reachable {} a := ⟨_, replay?_sound _ a _ hreplay⟩
  have hqueue := (Reachable.no_event_lost {} a hreachable ⟨"App", none, "app"⟩).1
  exact ⟨a, hreachable, hrunning, st, hst, hpending, hqueue hrunning st hst hpending⟩

end Activity
end Reconciliation
