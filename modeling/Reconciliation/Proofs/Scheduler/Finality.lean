import Reconciliation.Proofs.Scheduler.Timers

/-!
What is left of an identity whose object is gone. A deletion finds the identity idle, queued, in
flight, waiting for a timer or given up; entries of the ready queue, timers and the dispatch in
flight outlive it. Until the identity is triggered or rescheduled again it has no state, or one
that only the end of its dispatch still touches, and that end drops it.
-/
namespace Reconciliation

/-- The state of an identity whose object is gone and whose last dispatch takes it along. -/
structure IdentityState.Doomed (st : IdentityState) : Prop where
  flight : st.inFlight = true
  event : st.event = .deleted
  untimed : st.timer = none

/-- Whatever is left of an identity is doomed. -/
def IdentityState.Lost (old : Option IdentityState) : Prop := ∀ st, old = some st → st.Doomed

open IdentityState (Lost)

theorem IdentityState.lost_none : Lost none := fun _ h => by cases h

theorem IdentityState.Lost.map {old : Option IdentityState} {f : IdentityState → IdentityState}
    (h : Lost old) (hf : ∀ st, st.Doomed → (f st).Doomed) : Lost (old.map f) := by
  intro st hst
  obtain ⟨o, ho, rfl⟩ := Option.map_eq_some_iff.mp hst
  exact hf o (h o ho)

theorem IdentityState.Doomed.promoted {st : IdentityState} (h : st.Doomed) :
    st.promoted.Doomed := by
  have hkept : st.promoted = st := by
    simp [IdentityState.promoted, isDispatchable, h.flight]
  rw [hkept]
  exact h

namespace Decision

/-- A deletion dooms whatever state it finds. -/
theorem onDeleted_lost (s : Scheduler) (st : IdentityState) : Lost (s.stored (onDeleted st)) := by
  unfold onDeleted
  cases hflight : st.inFlight with
  | true =>
    rintro _ ⟨⟩
    exact ⟨hflight, rfl, rfl⟩
  | false => exact IdentityState.lost_none

theorem onFinished_of_deleted (config : SchedulerConfig) (st : IdentityState)
    (summary : DispatchSummary) (hevent : st.event = .deleted) :
    onFinished config st summary = .drop := by
  have hdeleted : st.isDeleted = true := st.isDeleted_iff.mpr hevent
  unfold onFinished
  cases summary.error with
  | some e => exact if_pos hdeleted
  | none => exact if_pos hdeleted

end Decision

namespace Scheduler
variable {s : Scheduler} {id : ResourceId}

/-- After the report of a deletion the identity has no state, or one that goes with its dispatch. -/
theorem lost_of_deleted (s : Scheduler) (id : ResourceId) (terminating : Bool) :
    Lost ((s.trigger id .deleted terminating).stateOf? id) := by
  rw [trigger_eq, Decision.onTrigger, if_pos rfl]
  cases hst : s.stateOf? id with
  | none =>
    change Lost (s.stateOf? id)
    rw [hst]
    exact IdentityState.lost_none
  | some st =>
    change Lost ((s.carryOut id (Decision.onDeleted st)).stateOf? id)
    rw [stateOf?_carryOut, if_pos rfl]
    exact Decision.onDeleted_lost s st

theorem timerOf_of_lost (h : Lost (s.stateOf? id)) : s.timerOf id = none := by
  unfold timerOf
  cases hst : s.stateOf? id with
  | none => rfl
  | some st => exact (h st hst).untimed

theorem timerFired_of_lost (h : Lost (s.stateOf? id)) (t : ArmedTimer) (ht : t.id = id) :
    s.timerFired t = s := by
  by_contra hne
  have hexp := timerFired_ne_iff.mp hne
  rw [Expects, ht, timerOf_of_lost h] at hexp
  cases hexp

/-- The entries of an identity in the ready queue are stale once it is lost. -/
theorem begin?_of_lost (h : Lost (s.stateOf? id)) : s.begin? id = none := by
  cases hb : s.begin? id with
  | none => rfl
  | some taken =>
    obtain ⟨st, hst, _, hidle, _⟩ := begin?_eq_some s id _ _ _ hb
    cases hidle.symm.trans (h st hst).flight

/-- The dispatch that was in flight takes the state along, whatever it reports. -/
theorem stateOf?_finished_of_lost (h : Lost (s.stateOf? id)) (hflight : s.isInFlight id = true)
    (summary : DispatchSummary) : (s.finished id summary).stateOf? id = none := by
  obtain ⟨st, hst, _⟩ := (s.isInFlight_iff id).mp hflight
  obtain ⟨stats, heq⟩ := s.finished_eq id summary st hst
  rw [heq, Decision.onFinished_of_deleted _ st summary (h st hst).event, stateOf?_carryOut,
    if_pos rfl]
  rfl

end Scheduler

namespace Activity
variable {c : SchedulerConfig} {a b x : Activity} {m : Move} {ms : List Move} {id : ResourceId}

/-- The calls that may bring back an identity whose object is gone. -/
inductive Revives (id : ResourceId) : Move → Prop
  | submit (cause : TriggerCause) (terminating : Bool) (hc : cause ≠ .deleted) :
      Revives id (.submit id cause terminating)
  | reschedule (delay : Span) : Revives id (.reschedule id delay)

/-- What is decided about a lost identity leaves it lost. -/
theorem Decides.lost {config : SchedulerConfig} {old : Option IdentityState} {d : Decision}
    (hd : Decides config id old m d) (hquiet : ¬Revives id m) (h : Lost old) (s : Scheduler) :
    Lost (s.stored d) := by
  cases hd with
  | submit cause terminating _ hd =>
    have hcause : cause = .deleted := by
      by_contra hne
      exact hquiet (.submit cause terminating hne)
    rw [Decision.onTrigger, if_pos hcause] at hd
    obtain ⟨st, _, rfl⟩ := Option.map_eq_some_iff.mp hd
    exact Decision.onDeleted_lost s st
  | reschedule delay => exact absurd (.reschedule delay) hquiet
  | fire t _ _ hd =>
    obtain ⟨st, hst, htoken, _⟩ := Decision.onTimer_fires _ t d hd
    cases (h st hst).untimed.symm.trans htoken
  | begin st hst _ hidle => cases hidle.symm.trans (h st hst).flight
  | finish st hst _ summary =>
    rw [Decision.onFinished_of_deleted config st summary (h st hst).event]
    exact IdentityState.lost_none

theorem Step.lost (hstep : Step a m b) (hc : Coherent c a) (hquiet : ¬Revives id m)
    (h : Lost (a.scheduler.stateOf? id)) : Lost (b.scheduler.stateOf? id) := by
  cases hstep.bears hc id with
  | aside _ _ hstate => exact hstate ▸ h
  | decided d hd hstate => exact hstate ▸ hd.lost hquiet h a.scheduler
  | promoted _ hstate => exact hstate ▸ h.map fun _ hst => hst.promoted
  | concluded _ hstate => exact hstate ▸ h.map fun _ hst => ⟨hst.flight, hst.event, rfl⟩

theorem Step.begins_other {request : ReconciliationRequest} {retry : Option RetryInfo}
    (hstep : Step a (.begin request retry) b) (h : Lost (a.scheduler.stateOf? id)) :
    request.id ≠ id := by
  rintro rfl
  cases hstep with
  | begin k rest _ _ s _ _ hb =>
    obtain ⟨_, _, _, _, rfl, _⟩ := Scheduler.begin?_eq_some _ k request retry s hb
    rw [Scheduler.begin?_of_lost (s := { a.scheduler with ready := rest }) h] at hb
    cases hb

/-- Until an identity is triggered or rescheduled again, it stays lost and no dispatch of it
begins. -/
theorem Trace.lost (htrace : Trace a ms b) (h : Reachable c a)
    (hquiet : ∀ m ∈ ms, ¬Revives id m) (hlost : Lost (a.scheduler.stateOf? id)) :
    Lost (b.scheduler.stateOf? id) ∧
      ∀ request retry, .begin request retry ∈ ms → request.id ≠ id := by
  induction htrace with
  | nil => exact ⟨hlost, fun _ _ hmem => by cases hmem⟩
  | cons hstep _ ih =>
    obtain ⟨hfirst, hrest⟩ := List.forall_mem_cons.mp hquiet
    obtain ⟨hend, hnone⟩ := ih (h.extend (.cons hstep (.nil _))) hrest
      (hstep.lost h.coherent hfirst hlost)
    refine ⟨hend, fun request retry hmem => ?_⟩
    rcases List.mem_cons.mp hmem with rfl | hmem
    · exact hstep.begins_other hlost
    · exact hnone request retry hmem

/-- Once the deletion of an object was reported, and until its identity is triggered otherwise or
rescheduled, no dispatch of the identity begins: its timers do nothing when they fire, and its
entries in the ready queue are stale. Its state is gone as soon as no dispatch of it is in
flight, whatever the last one reports. -/
theorem Reachable.deletion_final {terminating : Bool} (h : Reachable c a)
    (htrace : Trace a (.submit id .deleted terminating :: ms) b)
    (hquiet : ∀ m ∈ ms, ¬Revives id m) :
    (∀ request retry, .begin request retry ∈ ms → request.id ≠ id) ∧
    (∀ t : ArmedTimer, t.id = id → b.scheduler.timerFired t = b.scheduler) ∧
    (∀ rest, ({ b.scheduler with ready := rest }).begin? id = none) ∧
    b.scheduler.timerOf id = none ∧
    (id ∉ b.inFlight → b.scheduler.stateOf? id = none) ∧
    (id ∈ b.inFlight → ∀ summary, (b.scheduler.finished id summary).stateOf? id = none) := by
  have hb := (h.extend htrace).coherent
  cases htrace with
  | @cons _ x _ _ _ hstep hrest =>
    have hx : Reachable c x := h.extend (.cons hstep (.nil x))
    have hstart : Lost (x.scheduler.stateOf? id) := by
      cases hstep
      exact Scheduler.lost_of_deleted a.scheduler id terminating
    obtain ⟨hlost, hnone⟩ := hrest.lost hx hquiet hstart
    refine ⟨hnone, Scheduler.timerFired_of_lost hlost,
      fun rest => Scheduler.begin?_of_lost hlost, Scheduler.timerOf_of_lost hlost,
      fun hidle => ?_, fun hflight => ?_⟩
    · cases hst : b.scheduler.stateOf? id with
      | none => rfl
      | some st =>
        have hflight := (hlost st hst).flight
        exact absurd ((hb.mem_inFlight_iff id).mpr ⟨st, hst, hflight⟩) hidle
    · exact Scheduler.stateOf?_finished_of_lost hlost ((hb.tracked id).mp hflight)

/-- A dispatch in flight whose identity is to be looked at again later. -/
def underway (id : ResourceId) : List Move :=
  [.run, .submit id .added false, .takeWorker, .begin ⟨id, [.added]⟩ none, .reschedule id ⟨5⟩]

/-- A timer fires after the deletion, and the dispatch in flight then fails and would be retried. -/
def lateFailure (id : ResourceId) : List Move :=
  [.fire ⟨id, 0, ⟨5⟩, .rescheduled⟩, .finish id (.failed .shuttingDown)]

/-- A deletion finds a dispatch in flight and a timer armed. The timer does nothing when it fires,
and the dispatch is not retried although it fails. -/
theorem deletion_final_midway :
    ∃ a b, Trace (fresh {}) (underway ⟨"App", none, "app"⟩) a ∧
      Trace a (.submit ⟨"App", none, "app"⟩ .deleted false ::
        lateFailure ⟨"App", none, "app"⟩) b ∧
      b.scheduler.armed ≠ [] ∧ b.scheduler.stateOf? ⟨"App", none, "app"⟩ = none := by
  let id : ResourceId := ⟨"App", none, "app"⟩
  have hrun : ((fresh {}).replay? (underway id)).any (fun a =>
      (a.replay? (.submit id .deleted false :: lateFailure id)).any fun b =>
        id ∉ b.inFlight ∧ b.scheduler.armed ≠ []) = true := by
    decide
  obtain ⟨a, hreplay, hrun⟩ := (Option.any_eq_true _ _).mp hrun
  obtain ⟨b, hlate, hrun⟩ := (Option.any_eq_true _ _).mp hrun
  obtain ⟨hidle, harmed⟩ := of_decide_eq_true hrun
  have htrace := replay?_sound _ a _ hreplay
  have hrest := replay?_sound a b _ hlate
  have hquiet : ∀ m ∈ lateFailure id, ¬Revives id m := by
    intro m hm hrevives
    cases hrevives <;> simp [lateFailure] at hm
  obtain ⟨_, _, _, _, hgone, _⟩ := Reachable.deletion_final ⟨_, htrace⟩ hrest hquiet
  exact ⟨a, b, htrace, hrest, harmed, hgone hidle⟩

end Activity
end Reconciliation
