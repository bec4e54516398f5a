import Reconciliation.Proofs.Scheduler.Pursuit

/-!
Failures on record. The record of an identity outlives what followed the failure: conflicts leave
it, other timers take the place of the one for the retry, triggers cancel that one. Whatever
comes, a failure that is to be repeated is followed by a dispatch, and after one that is final no
timer for a retry is left.
-/
namespace Reconciliation

/-- An identity waits for a retry only at rest after a failure that is to be repeated. -/
def Scheduler.Retried (s : Scheduler) : Prop :=
  ∀ t ∈ s.armed, t.cause = .retry → s.Expects t →
    ∃ st, s.stateOf? t.id = some st ∧ st.Waiting

namespace Activity
variable {c : SchedulerConfig} {a b : Activity} {m : Move} {ms : List Move} {id : ResourceId}
  {old : Option IdentityState} {d : Decision} {st : IdentityState}

/-- A timer for a retry is armed only at the end of a dispatch, with its identity at rest. -/
theorem Decides.waiting (hd : Decides c id old m d) (hold : ∀ o, old = some o → o.Sound)
    {delay : Span} (harm : d = .arm st delay .retry) : st.Waiting := by
  cases hd with
  | submit cause terminating d hd =>
    subst harm
    cases Decision.onTrigger_triggered old hold cause terminating _ hd
  | reschedule delay d hd =>
    obtain ⟨_, rfl⟩ := Decision.onReschedule_eq_some old delay d hd
    cases harm
  | fire t hid d hd =>
    subst harm
    obtain ⟨_, _, _, hfires⟩ := Decision.onTimer_fires old t _ hd
    cases hfires
  | begin => cases harm
  | finish o ho hflight summary =>
    have hcloses := Decision.onFinished_closes c o summary (hold o ho) hflight
    rw [harm] at hcloses
    cases hcloses with
    | retrying _ _ hw => exact hw

/-- A decision about an identity that waits for a retry arms another timer or leaves none. -/
theorem Decides.timer_of_waiting (hd : Decides c id old m d) (hsound : ∀ o, old = some o → o.Sound)
    (hold : old = some st) (hw : st.Waiting) (s : Scheduler) {st' : IdentityState}
    (hst' : s.stored d = some st') (count : Nat) (hnone : d.timer? id count = none) :
    st'.timer = none := by
  subst hold
  have hflight : st.inFlight ≠ true := by rw [hw.idle]; nofun
  have hqueued : st.queued ≠ true := by rw [hw.unqueued]; nofun
  cases hd with
  | submit cause terminating d hd =>
    cases Decision.onTrigger_triggered _ hsound cause terminating d hd with
    | dropped => cases hst'
    | doomed =>
      obtain rfl := Option.some.inj hst'
      rfl
    | offered _ _ _ st'' _ ht =>
      obtain ⟨queued, rfl⟩ := Scheduler.of_stored_enqueue hst'
      exact ht
    | noted _ hbusy => exact absurd hbusy (not_or.mpr ⟨hflight, hqueued⟩)
  | reschedule delay d hd =>
    obtain ⟨_, rfl⟩ := Decision.onReschedule_eq_some _ delay d hd
    cases hnone
  | fire t hid d hd =>
    obtain ⟨_, _, _, hfires⟩ := Decision.onTimer_fires _ t d hd
    cases hfires with
    | handed st'' _ ht =>
      obtain ⟨queued, rfl⟩ := Scheduler.of_stored_enqueue hst'
      exact ht
    | ignored =>
      obtain rfl := Option.some.inj hst'
      rfl
  | begin o ho hq => exact absurd (Option.some.inj ho ▸ hq) hqueued
  | finish o ho hf => exact absurd (Option.some.inj ho ▸ hf) hflight

/-- Only failures that are to be repeated are followed by timers for a retry, after every step. -/
theorem Step.retried (hstep : Step a m b) (hc : Coherent c a) (htimed : a.scheduler.Timed)
    (h : a.scheduler.Retried) : b.scheduler.Retried := by
  intro t ht hcause hexp
  obtain ⟨st', hst', htimer⟩ := hexp.state
  by_cases hold : t ∈ a.scheduler.armed
  · obtain ⟨hbefore, hspared⟩ := (hstep.expects_iff hc htimed hold).mp hexp
    obtain ⟨st, hst, hw⟩ := h t hold hcause hbefore
    cases hstep.bears hc t.id with
    | aside _ _ hstate => exact ⟨st, hstate.trans hst, hw⟩
    | decided d hd hstate harmed =>
      cases hnew : d.timer? t.id a.scheduler.armed.length with
      | some t' =>
        rw [hnew] at harmed
        exact absurd (.replaced t' harmed (Decision.of_timer? hnew).1) hspared
      | none =>
        have hnone := hd.timer_of_waiting (hc.orderly.sound _ t.id) hst hw _
          (hstate.symm.trans hst') _ hnew
        cases hnone.symm.trans htimer
    | promoted _ hstate =>
      have hsame : st.promoted = st := if_neg fun hdue => by
        cases ((st.isDispatchable_iff.mp hdue).1).symm.trans hw.quiet
      exact ⟨st, by rw [hstate, hst, Option.map_some, hsame], hw⟩
    | concluded _ hstate =>
      obtain ⟨o, _, rfl⟩ := Option.map_eq_some_iff.mp (hstate.symm.trans hst')
      cases htimer
  · cases hstep.bears hc t.id with
    | aside _ _ _ new harmed hother =>
      rw [harmed, List.mem_append, Option.mem_toList] at ht
      exact absurd rfl (hother t (ht.resolve_right hold)).1
    | decided d hd hstate harmed =>
      rw [harmed, List.mem_append, Option.mem_toList] at ht
      obtain ⟨_, _, st, rfl⟩ := Decision.of_timer? (ht.resolve_right hold)
      have hw := hd.waiting (hc.orderly.sound _ t.id) (congrArg (Decision.arm st t.delay) hcause)
      exact ⟨_, hstate, hw.idle, hw.unqueued, hw.quiet, hw.failed⟩
    | promoted _ _ harmed => exact absurd (harmed ▸ ht) hold
    | concluded _ _ harmed => exact absurd (harmed ▸ ht) hold

theorem Reachable.retried (h : Reachable c a) : a.scheduler.Retried := by
  have hall := h.preserves (P := fun a => Reachable c a ∧ a.scheduler.Retried)
    (fun _ _ _ hstep h => ⟨h.1.extend (.cons hstep (.nil _)),
      hstep.retried h.1.coherent h.1.timed h.2⟩)
    ⟨⟨[], .nil _⟩, fun _ h => absurd h List.not_mem_nil⟩
  exact hall.2

/-- While a scheduler is not stopped, an identity whose failure on record is to be repeated has a
dispatch in flight, stands in the ready queue or waits for a timer. Stopped or not, an identity
whose failure on record is final waits for no retry. -/
theorem Trace.failure_followed (h : Trace (fresh c) ms a)
    (hst : a.scheduler.stateOf? id = some st) (r : FailureRecord)
    (hr : st.lastFailure = some r) :
    (r.terminal = false → .stop ∉ ms → Pursued a id) ∧
    (r.terminal = true → ∀ t ∈ a.scheduler.armed, t.id = id → t.cause = .retry →
      ¬a.scheduler.Expects t) := by
  have hreachable : Reachable c a := ⟨ms, h⟩
  refine ⟨fun hopen hstop => ?_, fun hfinal t ht hid hcause hexp => ?_⟩
  · have hunhalted := h.unhalted hstop
    have htended := h.tended hstop hst
    have hrun : .run ∈ ms := by
      by_contra hno
      cases hr.symm.trans ((hunhalted.unstarted hno).2.2 id st hst)
    rcases htended.pursued with hfollowed | hreleased | ⟨summary, _, hsettles⟩
    · exact hreachable.pursued (hunhalted.started hrun) hst hfollowed
    · cases hr.symm.trans (htended.relieved hreleased)
    · cases hopen.symm.trans (hsettles.final r hr)
  · subst hid
    obtain ⟨st', hst', hw⟩ := hreachable.retried t ht hcause hexp
    obtain rfl := Option.some.inj (hst.symm.trans hst')
    obtain ⟨r', hr', hopen⟩ := hw.failed
    obtain rfl := Option.some.inj (hr.symm.trans hr')
    cases hfinal.symm.trans hopen

/-- An identity whose first dispatch fails; then its state names a timer for a retry. -/
def firstFailure (id : ResourceId) (e : Error) : List Move :=
  [.run, .submit id .added false, .takeWorker, .begin ⟨id, [.added]⟩ none,
    .finish id (.failed e)]

/-- A first dispatch that is shut down leaves a failure that is to be repeated, and one that is
not valid a final one. -/
theorem failure_followed_first :
    (∃ a st r, Trace (fresh {}) (firstFailure ⟨"App", none, "app"⟩ .shuttingDown) a ∧
      a.scheduler.stateOf? ⟨"App", none, "app"⟩ = some st ∧ st.lastFailure = some r ∧
      r.terminal = false ∧ Pursued a ⟨"App", none, "app"⟩) ∧
    ∃ a st r, Trace (fresh {}) (firstFailure ⟨"App", none, "app"⟩ (.invalidConfig "")) a ∧
      a.scheduler.stateOf? ⟨"App", none, "app"⟩ = some st ∧ st.lastFailure = some r ∧
      r.terminal = true ∧ ∀ t ∈ a.scheduler.armed, t.id = ⟨"App", none, "app"⟩ →
        t.cause = .retry → ¬a.scheduler.Expects t := by
  have hstop : ∀ id e, .stop ∉ firstFailure id e := by
    intro id e
    simp [firstFailure]
  have hend : ∀ e terminal, ((fresh {}).replay? (firstFailure ⟨"App", none, "app"⟩ e)).any
      (fun a => (a.scheduler.stateOf? ⟨"App", none, "app"⟩).any fun st =>
        st.lastFailure.any fun r => r.terminal = terminal) = true →
      ∃ a st r, Trace (fresh {}) (firstFailure ⟨"App", none, "app"⟩ e) a ∧
        a.scheduler.stateOf? ⟨"App", none, "app"⟩ = some st ∧ st.lastFailure = some r ∧
        r.terminal = terminal := by
    intro e terminal h
    obtain ⟨a, hreplay, h⟩ := (Option.any_eq_true _ _).mp h
    obtain ⟨st, hst, h⟩ := (Option.any_eq_true _ _).mp h
    obtain ⟨r, hr, h⟩ := (Option.any_eq_true _ _).mp h
    exact ⟨a, st, r, replay?_sound _ a _ hreplay, hst, hr, of_decide_eq_true h⟩
  constructor
  · obtain ⟨a, st, r, htrace, hst, hr, hopen⟩ := hend .shuttingDown false (by decide)
    exact ⟨a, st, r, htrace, hst, hr, hopen, (htrace.failure_followed hst r hr).1 hopen (hstop _ _)⟩
  · obtain ⟨a, st, r, htrace, hst, hr, hfinal⟩ := hend (.invalidConfig "") true (by decide)
    exact ⟨a, st, r, htrace, hst, hr, hfinal, (htrace.failure_followed hst r hr).2 hfinal⟩

end Activity
end Reconciliation
