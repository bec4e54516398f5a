import Reconciliation.Proofs.Scheduler.Accounting
import Reconciliation.Proofs.Scheduler.Coherence

/-!
An identity whose dispatches all fail. As long as nothing else happens to it, it goes from the
ready queue into a dispatch and on to a timer, which hands it out again; each round uses up one
retry, and when none is left, the failure is the last one.
-/
namespace Reconciliation

namespace Activity
variable {c : SchedulerConfig} {policy : RetryPolicy} {n : UInt32} {id : ResourceId}
  {a b : Activity} {m : Move} {k : Nat}

/-- While a scheduler runs, the loop over its ready queue is there and was not asked to stop. -/
def Attended (a : Activity) : Prop :=
  a.scheduler.running = true → a.scheduler.stopRequested = false ∧ ∃ holds, a.loop = .waiting holds

theorem Attended.withScheduler (h : Attended a) (s : Scheduler)
    (hrunning : s.running = a.scheduler.running)
    (hstop : s.stopRequested = a.scheduler.stopRequested) : Attended { a with scheduler := s } := by
  intro hr
  rw [hstop]
  exact h (hrunning ▸ hr)

/-- While a scheduler is running, its loop stays at work. -/
theorem Step.attended (hstep : Step a m b) (h : Attended a) : Attended b := by
  cases hstep with
  | submit id cause terminating =>
    obtain ⟨_, _, _, heq⟩ := a.scheduler.trigger_frame id cause terminating
    exact h.withScheduler _ (by rw [heq]) (by rw [heq])
  | reschedule id delay =>
    obtain ⟨_, _, _, heq⟩ := a.scheduler.reschedule_frame id delay
    exact h.withScheduler _ (by rw [heq]) (by rw [heq])
  | fire t ht =>
    obtain ⟨_, _, _, heq⟩ := a.scheduler.timerFired_frame t
    exact h.withScheduler _ (by rw [heq]) (by rw [heq])
  | run s hs =>
    obtain ⟨_, _, rfl⟩ := a.scheduler.run_frame s hs
    exact fun _ => ⟨rfl, false, rfl⟩
  | refuse e hs => exact h
  | stop => exact nofun
  | takeWorker => exact fun hr => ⟨(h hr).1, true, rfl⟩
  | begin id rest request retry s hl hr hb =>
    obtain ⟨_, _, _, _, _, _, rfl⟩ := Scheduler.begin?_eq_some _ id request retry s hb
    exact fun hr => ⟨(h hr).1, false, rfl⟩
  | discard => exact fun hr => ⟨(h hr).1, false, rfl⟩
  | crash => exact h
  | finish id summary =>
    obtain ⟨_, _, _, _, heq⟩ := a.scheduler.finished_frame id summary
    intro hr
    dsimp only at hr ⊢
    rw [heq] at hr ⊢
    exact h hr
  | leave holds hl hs =>
    intro hr
    cases hs.symm.trans (h hr).1
  | conclude hl =>
    intro hr
    obtain ⟨_, holds, hloop⟩ := h hr
    cases hl.symm.trans hloop

theorem Reachable.attended (h : Reachable c a) : Attended a :=
  h.preserves (fun _ _ _ hstep => hstep.attended) nofun

/-- The scheduler is not stopped, an identity is not triggered or rescheduled, and its dispatches
end with failures for transient reasons. -/
def Undisturbed (id : ResourceId) : Move → Prop
  | .submit k _ _ => k ≠ id
  | .reschedule k _ => k ≠ id
  | .crash k => k ≠ id
  | .stop => False
  | .finish k summary => k = id → FailsTransiently id (.finish k summary)
  | _ => True

def isBegin (id : ResourceId) : Move → Bool
  | .begin request _ => request.id = id
  | _ => false

/-- The dispatches of an identity that begin in a run. -/
def begins (id : ResourceId) (ms : List Move) : Nat := ms.countP (isBegin id)

/-- Where an identity stands whose dispatches fail, so many of which have begun: one is due, or
under way, or waits for a timer, or the last one has failed. -/
inductive Failing (n : UInt32) (id : ResourceId) (a : Activity) : Nat → Prop
  | due (st : IdentityState) (hst : a.scheduler.stateOf? id = some st) (k : Nat)
      (hk : st.attempts.toNat = k) (hleft : st.attempts ≤ n) (he : st.event = .pending)
      (hidle : st.inFlight = false) (ht : st.timer = none)
      (hq : st.queued = true → a.scheduler.running = true) : Failing n id a k
  | underway (st : IdentityState) (hst : a.scheduler.stateOf? id = some st) (k : Nat)
      (hk : st.attempts.toNat = k) (hleft : st.attempts ≤ n) (he : st.event = .quiet)
      (hflight : st.inFlight = true) (ht : st.timer = none)
      (hr : a.scheduler.running = true) : Failing n id a (k + 1)
  | waiting (st : IdentityState) (hst : a.scheduler.stateOf? id = some st) (k : Nat)
      (hk : st.attempts.toNat = k) (hleft : st.attempts ≤ n) (he : st.event = .quiet)
      (hidle : st.inFlight = false) (t : ArmedTimer) (ht : st.timer = some t.token)
      (harmed : t ∈ a.scheduler.armed) (hid : t.id = id) (hr : a.scheduler.running = true) :
      Failing n id a k
  | exhausted (st : IdentityState) (hst : a.scheduler.stateOf? id = some st)
      (he : st.event = .quiet) (hidle : st.inFlight = false) (ht : st.timer = none)
      (message : String)
      (hlast : st.lastFailure = some ⟨message, .transient, n, true⟩) :
      Failing n id a (n.toNat + 1)

/-- What leaves the state of the identity alone leaves it where it stands. -/
theorem Failing.keep (h : Failing n id a k)
    (hstate : b.scheduler.stateOf? id = a.scheduler.stateOf? id)
    (harmed : ∀ t ∈ a.scheduler.armed, t ∈ b.scheduler.armed)
    (hrunning : a.scheduler.running = true → b.scheduler.running = true) : Failing n id b k := by
  cases h with
  | due st hst k hk hleft he hidle ht hq =>
    exact .due st (hstate.trans hst) k hk hleft he hidle ht fun h => hrunning (hq h)
  | underway st hst k hk hleft he hflight ht hr =>
    exact .underway st (hstate.trans hst) k hk hleft he hflight ht (hrunning hr)
  | waiting st hst k hk hleft he hidle t ht htimer hid hr =>
    exact .waiting st (hstate.trans hst) k hk hleft he hidle t ht (harmed t htimer) hid
      (hrunning hr)
  | exhausted st hst he hidle ht message hlast =>
    exact .exhausted st (hstate.trans hst) he hidle ht message hlast

/-- A decision on another identity leaves it where it stands. -/
theorem Failing.of_other (h : Failing n id a k) (s : Scheduler)
    (hs : s.states = a.scheduler.states ∧ s.armed = a.scheduler.armed ∧
      s.running = a.scheduler.running) (other : ResourceId) (hother : id ≠ other)
    (d? : Option Decision) (hb : b.scheduler = s.carryOut? other d?) : Failing n id b k := by
  obtain ⟨hstates, harmed, hrunning⟩ := hs
  cases d? with
  | none =>
    refine h.keep ?_ (fun t ht => ?_) (fun hr => ?_)
    · unfold Scheduler.stateOf?
      rw [hb, Scheduler.carryOut?, hstates]
    · rwa [hb, Scheduler.carryOut?, harmed]
    · rwa [hb, Scheduler.carryOut?, hrunning]
  | some d =>
    refine h.keep ?_ (fun t ht => ?_) (fun hr => ?_)
    · rw [hb, Scheduler.carryOut?, Scheduler.stateOf?_carryOut, if_neg hother]
      unfold Scheduler.stateOf?
      rw [hstates]
    · rw [hb, Scheduler.carryOut?, Scheduler.armed_carryOut, harmed]
      exact List.mem_append_right _ ht
    · rw [hb, Scheduler.carryOut?, Scheduler.running_carryOut, hrunning]
      exact hr

/-- A state with an event that is handed to the ready queue makes a dispatch due. -/
theorem failing_of_enqueue (s : Scheduler) (st : IdentityState)
    (hb : b.scheduler = s.enqueue id st) (hleft : st.attempts ≤ n) (he : st.event = .pending)
    (hidle : st.inFlight = false) (ht : st.timer = none)
    (hq : st.queued = true → s.running = true) (hk : st.attempts.toNat = k) :
    Failing n id b k := by
  have hst : b.scheduler.stateOf? id = some (s.offered st) := by
    rw [hb, Scheduler.stateOf?_enqueue, if_pos rfl]
  have hrunning : b.scheduler.running = s.running := by
    rw [hb]
    exact s.running_carryOut id (.enqueue st)
  unfold Scheduler.offered at hst
  split at hst
  · rename_i hfree
    simp only [Bool.and_eq_true] at hfree
    exact .due _ hst k hk hleft he hidle ht fun _ => hrunning.trans hfree.1.1
  · exact .due st hst k hk hleft he hidle ht fun h => hrunning.trans (hq h)

/-- A state that is stored with a timer for a retry waits for it. -/
theorem failing_of_arm (s : Scheduler) (st : IdentityState) (delay : Span)
    (hb : b.scheduler = s.arm id st delay .retry) (hleft : st.attempts ≤ n)
    (he : st.event = .quiet) (hidle : st.inFlight = false) (hr : s.running = true)
    (hk : st.attempts.toNat = k) : Failing n id b k := by
  have hst : b.scheduler.stateOf? id = some { st with timer := some s.armed.length } := by
    rw [hb, Scheduler.stateOf?_arm, if_pos rfl]
  refine .waiting _ hst k hk hleft he hidle ⟨id, s.armed.length, delay, .retry⟩ rfl ?_ rfl ?_
  · rw [hb]
    exact List.mem_cons_self
  · rw [hb]
    exact hr

theorem timerFired_of_stale (s : Scheduler) (t : ArmedTimer)
    (h : ∀ st, s.stateOf? t.id = some st → st.timer ≠ some t.token) : s.timerFired t = s := by
  unfold Scheduler.timerFired
  cases hst : s.stateOf? t.id with
  | none => rfl
  | some st => exact if_neg (h st hst)

/-- The timer that an identity waits for makes a dispatch due; any other one does nothing. -/
theorem Failing.fire (h : Failing n id a k) (t : ArmedTimer) :
    Failing n id { a with scheduler := a.scheduler.timerFired t } k := by
  by_cases hid : id = t.id
  · subst hid
    by_cases hnamed : ∃ st, a.scheduler.stateOf? t.id = some st ∧ st.timer = some t.token
    · obtain ⟨st, hst, htoken⟩ := hnamed
      cases h with
      | due st' hst' _ _ _ _ _ ht | underway st' hst' _ _ _ _ _ ht | exhausted st' hst' _ _ ht =>
        obtain rfl : st = st' := Option.some.inj (hst.symm.trans hst')
        cases htoken.symm.trans ht
      | waiting st' hst' k hk hleft he hidle t' ht harmed hid hr =>
        obtain rfl : st = st' := Option.some.inj (hst.symm.trans hst')
        have hacc : st.cancelTimer.acceptsEvents = true := st.acceptsEvents_iff.mpr (Or.inl he)
        have heq := a.scheduler.timerFired_eq t
        unfold Decision.onTimer at heq
        rw [hst, Option.bind_some, if_pos htoken] at heq
        dsimp only at heq
        rw [if_pos hacc, st.cancelTimer.markEvent_of_accepts t.cause hacc] at heq
        exact failing_of_enqueue a.scheduler _ heq hleft rfl hidle rfl (fun _ => hr) hk
    · rw [timerFired_of_stale _ t fun st hst htoken => hnamed ⟨st, hst, htoken⟩]
      exact h
  · exact h.of_other a.scheduler ⟨rfl, rfl, rfl⟩ t.id hid _ (a.scheduler.timerFired_eq t)

/-- A trigger of an identity of which nothing was known makes a first dispatch due. -/
theorem failing_of_submit (a : Activity) (cause : TriggerCause) (hcause : cause ≠ .deleted)
    (terminating : Bool) (hnew : a.scheduler.stateOf? id = none) :
    Failing n id { a with scheduler := a.scheduler.trigger id cause terminating } 0 := by
  have heq := a.scheduler.trigger_eq id cause terminating
  rw [hnew] at heq
  unfold Decision.onTrigger at heq
  rw [if_neg hcause] at heq
  exact failing_of_enqueue a.scheduler _ heq (UInt32.le_iff_toNat_le.mpr (Nat.zero_le _)) rfl rfl
    rfl nofun rfl

/-- What may only have been queued where it stands does not stand elsewhere. -/
theorem Failing.promote (h : Failing n id a k)
    (hstate : b.scheduler.stateOf? id = (a.scheduler.stateOf? id).map IdentityState.promoted)
    (harmed : b.scheduler.armed = a.scheduler.armed) (hrunning : b.scheduler.running = true) :
    Failing n id b k := by
  have hquiet : ∀ st : IdentityState, st.event = .quiet → st.promoted = st := by
    intro st he
    refine if_neg fun hd => ?_
    cases he.symm.trans (st.isDispatchable_iff.mp hd).1
  cases h with
  | due st hst k hk hleft he hidle ht hq =>
    rw [hst, Option.map_some] at hstate
    unfold IdentityState.promoted at hstate
    split at hstate
    · exact .due _ hstate k hk hleft he hidle ht fun _ => hrunning
    · exact .due st hstate k hk hleft he hidle ht fun _ => hrunning
  | underway st hst k hk hleft he hflight ht hr =>
    rw [hst, Option.map_some, hquiet st he] at hstate
    exact .underway st hstate k hk hleft he hflight ht hrunning
  | waiting st hst k hk hleft he hidle t ht htimer hid hr =>
    rw [hst, Option.map_some, hquiet st he] at hstate
    exact .waiting st hstate k hk hleft he hidle t ht (harmed ▸ htimer) hid hrunning
  | exhausted st hst he hidle ht message hlast =>
    rw [hst, Option.map_some, hquiet st he] at hstate
    exact .exhausted st hstate he hidle ht message hlast

/-- A dispatch that begins was due. -/
theorem Failing.begin (h : Failing n id a k) (hs : a.scheduler.Orderly) (s : Scheduler)
    (hready : s.states = a.scheduler.states) (hrunning : s.running = a.scheduler.running)
    (request : ReconciliationRequest) (retry : Option RetryInfo)
    (hbegin : s.begin? id = some ((request, retry), b.scheduler)) : Failing n id b (k + 1) := by
  obtain ⟨st, hst, hq, hidle, _, _, hb⟩ := Scheduler.begin?_eq_some s id request retry _ hbegin
  have hst : a.scheduler.stateOf? id = some st := by
    unfold Scheduler.stateOf? at hst ⊢
    rwa [← hready]
  have hpending := (hs id st hst).sound.queued_pending hq
  cases h with
  | due st' hst' k hk hleft he _ ht hqueued =>
    obtain rfl : st = st' := Option.some.inj (hst.symm.trans hst')
    have hbegun : b.scheduler.stateOf? id = some st.begun := by
      rw [hb]
      exact (Scheduler.stateOf?_put s id id st.begun).trans (if_pos rfl)
    have hquiet := st.event_begun he
    have hr : b.scheduler.running = true := by
      rw [hb]
      exact hrunning.trans (hqueued hq)
    exact .underway st.begun hbegun k hk hleft hquiet rfl ht hr
  | underway st' hst' _ _ _ _ hflight =>
    obtain rfl : st = st' := Option.some.inj (hst.symm.trans hst')
    cases hidle.symm.trans hflight
  | waiting st' hst' _ _ _ he | exhausted st' hst' he =>
    obtain rfl : st = st' := Option.some.inj (hst.symm.trans hst')
    cases hpending.symm.trans he

/-- The loop hands out an identity; it is counted if it is the one that fails. -/
theorem Failing.handed (h : Failing n id a k) (hs : a.scheduler.Orderly) (other : ResourceId)
    (rest : List ResourceId) (request : ReconciliationRequest) (retry : Option RetryInfo)
    (s : Scheduler) (hbegin : ({ a.scheduler with ready := rest }).begin? other =
      some ((request, retry), s)) (hb : b.scheduler = s) :
    Failing n id b (k + if isBegin id (.begin request retry) then 1 else 0) := by
  obtain ⟨st, _, _, _, hrequest, _, heq⟩ := Scheduler.begin?_eq_some _ other request retry s hbegin
  have hrequest : request.id = other := by rw [hrequest]
  by_cases hid : other = id
  · subst hid
    have hbegins : isBegin other (.begin request retry) = true := decide_eq_true hrequest
    rw [if_pos hbegins]
    exact h.begin hs { a.scheduler with ready := rest } rfl rfl request retry (hb ▸ hbegin)
  · have helse : ¬ isBegin id (.begin request retry) = true :=
      fun h => hid (hrequest ▸ of_decide_eq_true h)
    rw [if_neg helse]
    exact h.of_other
      { a.scheduler with ready := rest, stats.dispatched := a.scheduler.stats.dispatched + 1 }
      ⟨rfl, rfl, rfl⟩ other (Ne.symm hid) (some (.keep st.begun)) (hb.trans heq)

/-- At the end of the loop no identity waits for a timer. -/
theorem Failing.conclude (h : Failing n id a k) (hr : a.scheduler.running = false)
    (hstate : b.scheduler.stateOf? id = (a.scheduler.stateOf? id).map IdentityState.cancelTimer)
    (hrunning : b.scheduler.running = a.scheduler.running) : Failing n id b k := by
  cases h with
  | due st hst k hk hleft he hidle ht hq =>
    rw [hst, Option.map_some] at hstate
    exact .due _ hstate k hk hleft he hidle rfl fun h => hrunning.trans (hq h)
  | underway st hst k hk hleft he hflight ht hrunning => cases hr.symm.trans hrunning
  | waiting st hst k hk hleft he hidle t ht htimer hid hrunning => cases hr.symm.trans hrunning
  | exhausted st hst he hidle ht message hlast =>
    rw [hst, Option.map_some] at hstate
    exact .exhausted st.cancelTimer hstate he hidle rfl message hlast

/-- Without an event that came in, a transient failure is decided by the retries alone. -/
theorem onFinished_transient (config : SchedulerConfig) (st : IdentityState)
    (summary : DispatchSummary) (hevent : st.event = .quiet) (e : Error)
    (he : summary.error = some e) (hc : Scheduler.classOf e summary.noRetry = .transient) :
    Decision.onFinished config st summary =
      Decision.afterTransient config { st with inFlight := false } e := by
  have hkept : ¬ ({ st with inFlight := false } : IdentityState).isDeleted = true := by
    rw [IdentityState.isDeleted_iff]
    dsimp only
    rw [hevent]
    decide
  unfold Decision.onFinished
  rw [he]
  dsimp only
  unfold Decision.afterFailure
  rw [if_neg hkept, hc]

/-- A dispatch that has failed waits for a retry, or was the last one. -/
theorem Failing.finish (h : Failing n id a k) (hpolicy : a.scheduler.config.retry = some policy)
    (hn : policy.maxAttempts = some n) (hinterval : a.scheduler.config.maxInterval = none)
    (hg : a.scheduler.Governed policy) (st : IdentityState)
    (hst : a.scheduler.stateOf? id = some st) (hflight : st.inFlight = true)
    (summary : DispatchSummary) (hfails : FailsTransiently id (.finish id summary))
    (hb : b.scheduler = a.scheduler.finished id summary) : Failing n id b k := by
  cases h with
  | due st' hst' _ _ _ _ hidle | waiting st' hst' _ _ _ _ hidle | exhausted st' hst' _ hidle =>
    obtain rfl : st = st' := Option.some.inj (hst.symm.trans hst')
    cases hidle.symm.trans hflight
  | underway st' hst' k hk hleft hevent _ ht hr =>
    obtain rfl : st = st' := Option.some.inj (hst.symm.trans hst')
    obtain ⟨e, he, hc⟩ : ∃ e, summary.error = some e ∧
        Scheduler.classOf e summary.noRetry = .transient := by
      cases hfails with
      | finish _ e he hc => exact ⟨e, he, hc⟩
    obtain ⟨stats, heq⟩ := a.scheduler.finished_eq id summary st hst
    have hgov : ({ st with inFlight := false } : IdentityState).Governed policy := hg id st hst
    rw [onFinished_transient _ st summary hevent e he hc, ← hb] at heq
    have hp : st.event ≠ .pending := by
      rw [hevent]
      decide
    have hspent := Decision.isExhausted_getD (hg id st hst) n hn
    cases hexhausted : (st.retry.getD { policy }).isExhausted with
    | false =>
      obtain ⟨execution, _, hcounted, hdecision⟩ := Decision.afterTransient_of_left hgov
        a.scheduler.config hpolicy hp hexhausted e
      rw [hdecision] at heq
      have hlt : k < n.toNat := by
        rw [hexhausted, iff_false_left Bool.false_ne_true, UInt32.not_le] at hspent
        exact hk ▸ UInt32.lt_iff_toNat_lt.mp hspent
      have hcount : execution.attempts.toNat = k + 1 := by
        have hbound : n.toNat < UInt32.size := n.toNat_lt
        have hcounted : execution.attempts.toNat = min (st.attempts.toNat + 1) _ := hcounted
        rw [hcounted, hk]
        omega
      refine failing_of_arm _ _ _ heq ?_ hevent rfl hr hcount
      rw [UInt32.le_iff_toNat_le]
      exact Nat.le_trans (Nat.le_of_eq hcount) hlt
    | true =>
      obtain ⟨execution, _, hattempts, hdecision⟩ := Decision.afterTransient_of_exhausted hgov
        a.scheduler.config hpolicy hp hexhausted e
      have hspent : st.attempts = n := UInt32.le_antisymm hleft (hspent.mp hexhausted)
      have hlast : execution.attempts = n := hattempts.trans hspent
      have hstate := Scheduler.stateOf?_carryOut { a.scheduler with stats } id id
        (Decision.afterTransient a.scheduler.config { st with inFlight := false } e)
      rw [← heq, if_pos rfl, hdecision, hinterval] at hstate
      rw [← hk, hspent]
      exact .exhausted _ hstate hevent rfl ht e.message (by rw [← hlast]; rfl)

section
variable (hpolicy : c.retry = some policy) (hn : policy.maxAttempts = some n)
  (hinterval : c.maxInterval = none)
include hpolicy hn hinterval

/-- Where an identity whose dispatches fail stands after one more step, and how many of them have
begun by then. -/
theorem Step.failing (hstep : Step a m b) (hreachable : Reachable c a) (hm : Undisturbed id m)
    (h : Failing n id a k) : Failing n id b (k + if isBegin id m then 1 else 0) := by
  have hcoherent := hreachable.coherent
  cases hstep with
  | submit other cause terminating =>
    exact h.of_other a.scheduler ⟨rfl, rfl, rfl⟩ other (Ne.symm hm) _
      (a.scheduler.trigger_eq other cause terminating)
  | reschedule other delay =>
    exact h.of_other a.scheduler ⟨rfl, rfl, rfl⟩ other (Ne.symm hm) _
      (a.scheduler.reschedule_eq other delay)
  | fire t ht => exact h.fire t
  | run s hs =>
    obtain ⟨_, _, hframe⟩ := a.scheduler.run_frame s hs
    obtain ⟨_, rfl⟩ := Scheduler.run_eq_ok _ s hs
    refine h.promote (Scheduler.stateOf?_enqueuePending _ rfl id) ?_ ?_
    · rw [hframe]
    · rw [hframe]
  | stop => exact hm.elim
  | begin other rest request retry s hl hr hb =>
    exact h.handed hcoherent.orderly other rest request retry s hb rfl
  | finish other summary hf hc =>
    obtain ⟨st, hst, hflight⟩ := (hcoherent.mem_inFlight_iff other).mp hf
    by_cases hid : other = id
    · subst hid
      have hconfig := hreachable.config_eq
      exact h.finish (hconfig ▸ hpolicy) hn (hconfig ▸ hinterval)
        (hreachable.governed hpolicy).2 st hst hflight summary (hm rfl) rfl
    · obtain ⟨stats, heq⟩ := a.scheduler.finished_eq other summary st hst
      exact h.of_other { a.scheduler with stats } ⟨rfl, rfl, rfl⟩ other (Ne.symm hid) (some _) heq
  | conclude hl hf =>
    refine h.conclude ?_ (Scheduler.stateOf?_ended _ id) rfl
    rw [← Bool.not_eq_true]
    intro hr
    obtain ⟨_, holds, hloop⟩ := hreachable.attended hr
    cases hl.symm.trans hloop
  | refuse | takeWorker | discard | crash | leave =>
    exact h.keep rfl (fun _ ht => ht) fun hr => hr

/-- A run adds up the dispatches that begin in it. -/
theorem Trace.failing {ms : List Move} (htrace : Trace a ms b) (hreachable : Reachable c a)
    (hms : ∀ m ∈ ms, Undisturbed id m) (h : Failing n id a k) :
    Failing n id b (k + begins id ms) := by
  induction htrace generalizing k with
  | nil => exact h
  | cons hstep _ ih =>
    have hnext := hstep.failing hpolicy hn hinterval hreachable (hms _ List.mem_cons_self) h
    have hlast := ih (hreachable.extend (.cons hstep (.nil _)))
      (fun m hm => hms m (List.mem_cons_of_mem _ hm)) hnext
    rw [begins, List.countP_cons, Nat.add_comm (List.countP _ _), ← Nat.add_assoc]
    exact hlast

end

/-- No more dispatches begin than there are retries, and one. -/
theorem Failing.le (h : Failing n id a k) : k ≤ n.toNat + 1 := by
  cases h with
  | due st hst k hk hleft =>
    rw [← hk]
    exact Nat.le_succ_of_le (UInt32.le_iff_toNat_le.mp hleft)
  | underway st hst k hk hleft =>
    rw [← hk]
    exact Nat.succ_le_succ (UInt32.le_iff_toNat_le.mp hleft)
  | waiting st hst k hk hleft =>
    rw [← hk]
    exact Nat.le_succ_of_le (UInt32.le_iff_toNat_le.mp hleft)
  | exhausted => exact Nat.le_refl _

end Activity
end Reconciliation
