import Reconciliation.Proofs.Scheduler.Flight
import Reconciliation.Proofs.Scheduler.Replay

/-!
The scheduler and its dispatches fit together. The loop begins a dispatch only with a worker in
hand and only for an identity that has none in flight, and a dispatch gives both back when it
ends. So in every state that can be reached the dispatches in flight are those that the states
of the identities name, and there are never more of them than workers.
-/
namespace Reconciliation

namespace Activity

/-- The flags of the states agree with the dispatches, and every worker is accounted for. -/
structure Coherent (c : SchedulerConfig) (a : Activity) : Prop where
  orderly : a.scheduler.Orderly
  distinct : a.inFlight.Nodup
  tracked : ∀ id, id ∈ a.inFlight ↔ a.scheduler.isInFlight id = true
  workers : a.freeWorkers + a.held + a.inFlight.length = max c.workers 1
  loop_absent : a.scheduler.serving = false → a.loop = .absent

theorem Coherent.mem_inFlight_iff {c : SchedulerConfig} {a : Activity} (h : Coherent c a)
    (id : ResourceId) :
    id ∈ a.inFlight ↔ ∃ st, a.scheduler.stateOf? id = some st ∧ st.inFlight = true :=
  (h.tracked id).trans (a.scheduler.isInFlight_iff id)

theorem coherent_fresh (c : SchedulerConfig) : Coherent c (fresh c) where
  orderly id st hst := by cases hst
  distinct := List.nodup_nil
  tracked id := by
    constructor
    · intro h
      cases h
    · intro h
      cases h
  workers := by simp [fresh, held]
  loop_absent _ := rfl

/-- A loop that waits serves the ready queue. -/
theorem Coherent.serving_of_waiting {c : SchedulerConfig} {a : Activity} (h : Coherent c a)
    {holds : Bool} (hl : a.loop = .waiting holds) : a.scheduler.serving ≠ false := by
  intro hidle
  cases hl.symm.trans (h.loop_absent hidle)

/-- A step that leaves the loop and the dispatches alone, and no flag changed. -/
theorem Coherent.withScheduler {c : SchedulerConfig} {a : Activity} (h : Coherent c a)
    (s : Scheduler) (hs : s.Orderly) (hflags : ∀ id, s.isInFlight id = a.scheduler.isInFlight id)
    (hserving : s.serving = a.scheduler.serving) : Coherent c { a with scheduler := s } where
  orderly := hs
  distinct := h.distinct
  tracked id := by rw [hflags id]; exact h.tracked id
  workers := h.workers
  loop_absent hfalse := h.loop_absent (hserving ▸ hfalse)

/-- The loop starts only when no other one is there, so it holds no worker yet. -/
theorem Coherent.run {c : SchedulerConfig} {a : Activity} (h : Coherent c a) (s : Scheduler)
    (hs : a.scheduler.run = .ok s) :
    Coherent c { a with scheduler := s, loop := .waiting false } := by
  obtain ⟨hidle, heq⟩ := Scheduler.run_eq_ok _ s hs
  have hworkers := h.workers
  simp only [held, h.loop_absent hidle] at hworkers
  refine ⟨Scheduler.orderly_run _ s h.orderly hs, h.distinct, fun id => ?_, ?_, fun hfalse => ?_⟩
  · rw [Scheduler.isInFlight_run _ s hs]
    exact h.tracked id
  · exact hworkers
  · rw [heq, Scheduler.enqueuePending_eq, Scheduler.serving_foldl_offer] at hfalse
    cases hfalse

/-- The worker that the loop held goes with the dispatch that begins. -/
theorem Coherent.begin {c : SchedulerConfig} {a : Activity} (h : Coherent c a)
    (id : ResourceId) (rest : List ResourceId) (request : ReconciliationRequest)
    (retry : Option RetryInfo) (s : Scheduler) (hl : a.loop = .waiting true)
    (hr : a.scheduler.ready = id :: rest)
    (hb : ({ a.scheduler with ready := rest }).begin? id = some ((request, retry), s)) :
    Coherent c
      { a with scheduler := s, loop := .waiting false, inFlight := id :: a.inFlight } := by
  have hflag := Scheduler.isInFlight_begin? _ s id request retry hb
  have hnew : id ∉ a.inFlight := by
    intro hmem
    have hflight := (h.tracked id).mp hmem
    have hidle : a.scheduler.isInFlight id = false := (hflag id).1
    rw [hidle] at hflight
    cases hflight
  have hworkers := h.workers
  simp only [held, hl] at hworkers
  refine ⟨Scheduler.orderly_begin? _ h.orderly id rest hr request retry s hb,
    List.nodup_cons.mpr ⟨hnew, h.distinct⟩, fun k => ?_, ?_, fun hserving => ?_⟩
  · dsimp only
    rw [(hflag k).2, List.mem_cons]
    by_cases hk : k = id
    · simp only [hk, true_or, if_true]
    · simp only [hk, false_or, if_false]
      exact h.tracked k
  · simp only [held, List.length_cons]
    omega
  · obtain ⟨_, _, _, _, _, _, heq⟩ := Scheduler.begin?_eq_some _ id request retry s hb
    rw [heq] at hserving
    exact absurd hserving (h.serving_of_waiting hl)

/-- The end of a dispatch gives its worker back and clears the flag of its identity. -/
theorem Coherent.finish {c : SchedulerConfig} {a : Activity} (h : Coherent c a)
    (id : ResourceId) (summary : DispatchSummary) (hf : id ∈ a.inFlight)
    (crashed : List ResourceId) :
    Coherent c
      { a with
        scheduler := a.scheduler.finished id summary
        inFlight := a.inFlight.erase id
        crashed := crashed
        freeWorkers := a.freeWorkers + 1 } := by
  have hflight := (h.tracked id).mp hf
  have hpos := List.length_pos_of_mem hf
  have hlength := List.length_erase_of_mem hf
  have hworkers := h.workers
  refine ⟨Scheduler.orderly_finished _ h.orderly id summary hflight, h.distinct.erase id,
    fun k => ?_, ?_, fun hserving => ?_⟩
  · dsimp only
    rw [Scheduler.isInFlight_finished _ h.orderly id k summary hflight,
      h.distinct.mem_erase_iff, h.tracked k]
    by_cases hk : k = id
    · simp [hk]
    · simp [hk]
  · change a.freeWorkers + 1 + a.held + (a.inFlight.erase id).length = _
    omega
  · rw [Scheduler.serving_finished] at hserving
    exact h.loop_absent hserving

/-- Whatever step the scheduler takes next, it stays coherent with its dispatches. -/
theorem Step.coherent {c : SchedulerConfig} {a b : Activity} {m : Move} (hstep : Step a m b)
    (h : Coherent c a) : Coherent c b := by
  cases hstep with
  | submit id cause terminating =>
    refine h.withScheduler _ (Scheduler.orderly_trigger _ h.orderly id cause terminating)
      (fun k => Scheduler.isInFlight_trigger _ id k cause terminating) ?_
    rw [Scheduler.trigger_eq, Scheduler.serving_carryOut?]
  | reschedule id delay =>
    refine h.withScheduler _ (Scheduler.orderly_reschedule _ h.orderly id delay)
      (fun k => Scheduler.isInFlight_reschedule _ id k delay) ?_
    rw [Scheduler.reschedule_eq, Scheduler.serving_carryOut?]
  | fire t ht =>
    refine h.withScheduler _ (Scheduler.orderly_timerFired _ h.orderly t)
      (Scheduler.isInFlight_timerFired _ t) ?_
    rw [Scheduler.timerFired_eq, Scheduler.serving_carryOut?]
  | run s hs => exact h.run s hs
  | refuse e hs => exact h
  | stop =>
    exact h.withScheduler _ (Scheduler.orderly_stop _ h.orderly) (fun _ => rfl) rfl
  | takeWorker n hl hw =>
    have hworkers := h.workers
    simp only [held, hl, hw] at hworkers
    refine ⟨h.orderly, h.distinct, h.tracked, ?_, fun hs => absurd hs (h.serving_of_waiting hl)⟩
    simp only [held]
    omega
  | begin id rest request retry s hl hr hb => exact h.begin id rest request retry s hl hr hb
  | discard id rest hl hr hb =>
    have hworkers := h.workers
    simp only [held, hl] at hworkers
    refine ⟨Scheduler.orderly_discard _ h.orderly id rest hr hb, h.distinct, h.tracked, ?_,
      fun hs => absurd hs (h.serving_of_waiting hl)⟩
    simp only [held]
    omega
  | crash id hf hc =>
    exact ⟨fun k st hst => (h.orderly k st hst).mono _ _ k st (fun hk => hk) (fun hr => hr),
      h.distinct, h.tracked, h.workers, h.loop_absent⟩
  | finish id summary hf hc => exact h.finish id summary hf _
  | leave holds hl hs =>
    have hworkers := h.workers
    refine ⟨h.orderly, h.distinct, h.tracked, ?_, fun hs => absurd hs (h.serving_of_waiting hl)⟩
    change a.freeWorkers + a.held + 0 + a.inFlight.length = max c.workers 1
    omega
  | conclude hl hf =>
    have hworkers := h.workers
    simp only [held, hl] at hworkers
    refine ⟨Scheduler.orderly_ended _ h.orderly, h.distinct, fun id => ?_, ?_, fun _ => rfl⟩
    · rw [Scheduler.isInFlight_ended]
      exact h.tracked id
    · exact hworkers

theorem Reachable.coherent {c : SchedulerConfig} {a : Activity} (h : Reachable c a) :
    Coherent c a :=
  h.preserves (fun _ _ _ hstep => hstep.coherent) (coherent_fresh c)

/-- No identity has two dispatches in flight. The dispatches are those that the states name; a
queued state has no dispatch, but an event and an entry in the ready queue; and there are never
more dispatches than workers. -/
theorem Reachable.dispatches_exclusive (c : SchedulerConfig) (a : Activity)
    (h : Reachable c a) :
    a.inFlight.Nodup ∧
    (∀ id, id ∈ a.inFlight ↔ ∃ st, a.scheduler.stateOf? id = some st ∧ st.inFlight = true) ∧
    (∀ id st, a.scheduler.stateOf? id = some st → ¬(st.queued = true ∧ st.inFlight = true)) ∧
    (∀ id st, a.scheduler.stateOf? id = some st → st.queued = true →
      id ∈ a.scheduler.ready ∧ st.event = .pending) ∧
    a.inFlight.length ≤ max c.workers 1 := by
  have hc := h.coherent
  refine ⟨hc.distinct, fun id => ?_, fun id st hst => ?_, fun id st hst hq => ?_, ?_⟩
  · rw [hc.tracked id, Scheduler.isInFlight_iff]
  · rintro ⟨hq, hf⟩
    rw [(hc.orderly id st hst).sound.queued_idle hq] at hf
    cases hf
  · have hfits := hc.orderly id st hst
    exact ⟨hfits.in_ready hq, hfits.sound.queued_pending hq⟩
  · have hworkers := hc.workers
    omega

/-- An object that is deleted and made again before its dispatch begins stands in the ready
queue twice. -/
def recreation (id : ResourceId) : List Move :=
  [.run, .submit id .added false, .submit id .deleted false, .submit id .added false,
    .takeWorker, .begin ⟨id, [.added]⟩ none]

/-- The stale entry that a recreation leaves in the ready queue begins no second dispatch. -/
theorem dispatches_exclusive_recreation :
    ∃ a, Reachable {} a ∧ a.scheduler.ready = [⟨"App", none, "app"⟩] ∧
      a.inFlight = [⟨"App", none, "app"⟩] ∧ a.inFlight.Nodup ∧
      ∀ st, a.scheduler.stateOf? ⟨"App", none, "app"⟩ = some st →
        ¬(st.queued = true ∧ st.inFlight = true) := by
  have hrun : ((fresh {}).replay? (recreation ⟨"App", none, "app"⟩)).any (fun a =>
      a.scheduler.ready = [⟨"App", none, "app"⟩] ∧
        a.inFlight = [⟨"App", none, "app"⟩]) = true := by
    decide
  obtain ⟨a, hreplay, hqueue⟩ := (Option.any_eq_true _ _).mp hrun
  obtain ⟨hready, hflight⟩ := of_decide_eq_true hqueue
  have hreachable : Reachable {} a := ⟨_, replay?_sound _ a _ hreplay⟩
  obtain ⟨hnodup, _, hidle, _⟩ := Reachable.dispatches_exclusive {} a hreachable
  exact ⟨a, hreachable, hready, hflight, hnodup, hidle _⟩

end Activity
end Reconciliation
