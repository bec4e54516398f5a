import Reconciliation.Proofs.Scheduler.Pursuit

/-!
The regular look at every identity. With an interval set, a success and the last failed retry
leave a timer behind. A terminal failure does not, and neither does a failure while retries are
off; after these two an identity is looked at again only when it is triggered.
-/
namespace Reconciliation

namespace Activity
variable {c : SchedulerConfig} {a : Activity} {ms : List Move} {id : ResourceId}
  {st : IdentityState}

/-- With an interval set, an identity that a running scheduler knows is in flight, queued or waits
for a timer, unless its finalizer was removed, or its latest dispatch ended with a terminal
failure, or with a transient one while retries are off. -/
theorem Trace.resync_kept (h : Trace (fresh c) ms a) (hrun : .run ∈ ms) (hstop : .stop ∉ ms)
    (interval : Span) (hinterval : c.maxInterval = some interval)
    (hst : a.scheduler.stateOf? id = some st) (hreleased : st.event ≠ .released) :
    Pursued a id ∨ ∃ summary, lastEnd? id ms = some summary ∧ Forsakes c summary := by
  have hreachable : Reachable c a := ⟨ms, h⟩
  rcases (h.tended hstop hst).pursued with hfollowed | he | ⟨summary, hlast, hsettles⟩
  · exact Or.inl (hreachable.pursued ((h.unhalted hstop).started hrun) hst hfollowed)
  · exact absurd he hreleased
  · rcases hsettles.forsaken with hforsakes | hnone
    · exact Or.inr ⟨summary, hlast, hforsakes⟩
    · cases hnone.symm.trans hinterval

/-- A new identity is dispatched with success; the timer of the interval has it dispatched once
more. -/
def resync (id : ResourceId) (interval : Span) (second : DispatchSummary) : List Move :=
  [.run, .submit id .added false, .takeWorker, .begin ⟨id, [.added]⟩ none,
    .finish id (.succeeded none none), .fire ⟨id, 0, interval, .rescheduled⟩, .takeWorker,
    .begin ⟨id, [.rescheduled]⟩ none, .finish id second]

/-- A second dispatch that fails for a transient reason does not end the regular dispatches. -/
theorem resync_kept_transient :
    ∃ a, Trace (fresh { maxInterval := some (.ofMillis 1000) })
        (resync ⟨"App", none, "app"⟩ (.ofMillis 1000) (.failed .shuttingDown)) a ∧
      Pursued a ⟨"App", none, "app"⟩ := by
  have hrun : ((fresh { maxInterval := some (.ofMillis 1000) }).replay?
      (resync ⟨"App", none, "app"⟩ (.ofMillis 1000) (.failed .shuttingDown))).any (fun a =>
        (a.scheduler.stateOf? ⟨"App", none, "app"⟩).any fun st => st.event ≠ .released) = true := by
    decide
  obtain ⟨a, hreplay, hstate⟩ := (Option.any_eq_true _ _).mp hrun
  obtain ⟨st, hst, hevent⟩ := (Option.any_eq_true _ _).mp hstate
  have htrace := replay?_sound _ a _ hreplay
  have hkept := htrace.resync_kept (List.mem_cons_self ..) (by simp [resync]) _ rfl hst
    (of_decide_eq_true hevent)
  refine ⟨a, htrace, hkept.resolve_right ?_⟩
  rintro ⟨summary, hlast, hforsakes⟩
  obtain rfl := Option.some.inj hlast
  cases hforsakes with
  | terminal e he hc =>
    obtain rfl := Option.some.inj he
    cases hc
  | unretried e he hc hoff => cases hoff

theorem not_pursued (hst : a.scheduler.stateOf? id = some st) (hflight : a.inFlight = [])
    (hqueued : st.queued = false) (htimer : st.timer = none) : ¬Pursued a id := by
  rintro (hmem | ⟨st', hst', hq, _⟩ | ⟨t, _, hid, hexp⟩)
  · rw [hflight] at hmem
    cases hmem
  · obtain rfl := Option.some.inj (hst.symm.trans hst')
    cases hqueued.symm.trans hq
  · rw [Scheduler.Expects, Scheduler.timerOf, hid, hst, Option.bind_some, htimer] at hexp
    cases hexp

/-- A running scheduler knows an identity, whose object is there, and yet nothing leads to another
dispatch of it. -/
def Resyncless (c : SchedulerConfig) (ms : List Move) (id : ResourceId) : Prop :=
  ∃ a st, Trace (fresh c) ms a ∧ a.scheduler.running = true ∧
    a.scheduler.stateOf? id = some st ∧ st.event = .quiet ∧ ¬Pursued a id

theorem resyncless_of_replay {c : SchedulerConfig} {ms : List Move} {id : ResourceId}
    (h : ((fresh c).replay? ms).any (fun a => a.scheduler.running ∧ a.inFlight = [] ∧
      (a.scheduler.stateOf? id).any fun st =>
        st.event = .quiet ∧ st.queued = false ∧ st.timer = none) = true) :
    Resyncless c ms id := by
  obtain ⟨a, hreplay, h⟩ := (Option.any_eq_true _ _).mp h
  obtain ⟨hrunning, hflight, h⟩ := of_decide_eq_true h
  obtain ⟨st, hst, h⟩ := (Option.any_eq_true _ _).mp h
  obtain ⟨hevent, hqueued, htimer⟩ := of_decide_eq_true h
  exact ⟨a, st, replay?_sound _ a ms hreplay, hrunning, hst, hevent,
    not_pursued hst hflight hqueued htimer⟩

/-- The regular dispatches end with a terminal failure, and while retries are off with a transient
one. -/
theorem resync_lost_after_failure :
    Resyncless { maxInterval := some (.ofMillis 1000) }
      (resync ⟨"App", none, "app"⟩ (.ofMillis 1000) (.failed (.invalidConfig "bad")))
      ⟨"App", none, "app"⟩ ∧
    Resyncless { retry := none, maxInterval := some (.ofMillis 1000) }
      (resync ⟨"App", none, "app"⟩ (.ofMillis 1000) (.failed .shuttingDown))
      ⟨"App", none, "app"⟩ :=
  ⟨resyncless_of_replay (by decide), resyncless_of_replay (by decide)⟩

end Activity
end Reconciliation
