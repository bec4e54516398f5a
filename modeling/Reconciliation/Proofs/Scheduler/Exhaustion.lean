import Reconciliation.Proofs.Scheduler.Failing
import Reconciliation.Proofs.Scheduler.Pending

/-!
The end of a run of failures. Whatever else happens, an identity whose dispatches all fail gets
its turn again as long as the scheduler runs, until its retries are used up. So after one trigger
there is one dispatch more than the policy has retries, and then nothing is left to happen.
-/
namespace Reconciliation

namespace Scheduler

theorem begin?_of_queued (s : Scheduler) (id : ResourceId) (st : IdentityState)
    (hst : s.stateOf? id = some st) (hq : st.queued = true) (hidle : st.inFlight = false) :
    ∃ request retry s', s.begin? id = some ((request, retry), s') := by
  unfold begin?
  rw [hst]
  dsimp only
  rw [if_pos (by rw [hq, hidle]; rfl)]
  exact ⟨_, _, _, rfl⟩

/-- A decision only ever adds to the ready queue. -/
theorem ready_carryOut (s : Scheduler) (id : ResourceId) (d : Decision) :
    ∃ more, (s.carryOut id d).ready = s.ready ++ more := by
  cases d with
  | enqueue st =>
    simp only [carryOut, enqueue]
    split
    · exact ⟨[id], rfl⟩
    · exact ⟨[], (List.append_nil _).symm⟩
  | _ => exact ⟨[], (List.append_nil _).symm⟩

end Scheduler

namespace Activity
variable {c : SchedulerConfig} {policy : RetryPolicy} {n : UInt32} {id : ResourceId}
  {a b d : Activity} {m : Move} {k : Nat}

/-- Only dispatches in flight have crashed, each once. -/
structure Crashing (a : Activity) : Prop where
  distinct : a.crashed.Nodup
  inFlight : ∀ id ∈ a.crashed, id ∈ a.inFlight

theorem Step.crashing (hstep : Step a m b) (h : Crashing a) : Crashing b := by
  cases hstep with
  | begin => exact ⟨h.distinct, fun k hk => List.mem_cons_of_mem _ (h.inFlight k hk)⟩
  | crash id hf hc =>
    refine ⟨List.nodup_cons.mpr ⟨hc, h.distinct⟩, fun k hk => ?_⟩
    rcases List.mem_cons.mp hk with rfl | hk
    · exact hf
    · exact h.inFlight k hk
  | finish id =>
    refine ⟨h.distinct.erase id, fun k hk => ?_⟩
    obtain ⟨hne, hk⟩ := h.distinct.mem_erase_iff.mp hk
    exact (List.mem_erase_of_ne hne).mpr (h.inFlight k hk)
  | submit | reschedule | fire | run | refuse | stop | takeWorker | discard | leave | conclude =>
    exact ⟨h.distinct, h.inFlight⟩

theorem Reachable.crashing (h : Reachable c a) : Crashing a :=
  h.preserves (fun _ _ _ hstep => hstep.crashing) ⟨List.nodup_nil, fun _ hk => nomatch hk⟩

/-- Without a disturbance no dispatch of the identity crashes. -/
theorem Step.uncrashed (hstep : Step a m b) (hm : Undisturbed id m) (h : id ∉ a.crashed) :
    id ∉ b.crashed := by
  cases hstep with
  | crash k hf hc =>
    rw [List.mem_cons, not_or]
    exact ⟨Ne.symm hm, h⟩
  | finish k => exact fun hk => h (List.mem_of_mem_erase hk)
  | submit | reschedule | fire | run | refuse | stop | takeWorker | begin | discard | leave
  | conclude => exact h

theorem Trace.uncrashed {ms : List Move} (htrace : Trace a ms b)
    (hms : ∀ m ∈ ms, Undisturbed id m) (h : id ∉ a.crashed) : id ∉ b.crashed := by
  induction htrace with
  | nil => exact h
  | cons hstep _ ih =>
    exact ih (fun m hm => hms m (List.mem_cons_of_mem _ hm))
      (hstep.uncrashed (hms _ List.mem_cons_self) h)

/-- The scheduler can come from one state to the other without a disturbance of the identity. -/
def Leads (id : ResourceId) (a b : Activity) : Prop :=
  ∃ ms, Trace a ms b ∧ ∀ m ∈ ms, Undisturbed id m

theorem leads_refl (id : ResourceId) (a : Activity) : Leads id a a :=
  ⟨[], .nil a, fun _ h => absurd h List.not_mem_nil⟩

theorem Step.leads (hstep : Step a m b) (hm : Undisturbed id m) : Leads id a b :=
  ⟨[m], .cons hstep (.nil b), fun _ h => List.mem_singleton.mp h ▸ hm⟩

theorem Leads.trans (h : Leads id a b) (h' : Leads id b d) : Leads id a d := by
  obtain ⟨ms, htrace, hms⟩ := h
  obtain ⟨ms', htrace', hms'⟩ := h'
  refine ⟨ms ++ ms', htrace.append htrace', fun m hm => ?_⟩
  rcases List.mem_append.mp hm with hm | hm
  · exact hms m hm
  · exact hms' m hm

theorem Leads.reachable (h : Leads id a b) (hreachable : Reachable c a) : Reachable c b := by
  obtain ⟨ms, htrace, _⟩ := h
  exact hreachable.extend htrace

theorem Leads.uncrashed (h : Leads id a b) (hcrashed : id ∉ a.crashed) : id ∉ b.crashed := by
  obtain ⟨ms, htrace, hms⟩ := h
  exact htrace.uncrashed hms hcrashed

/-- The identity stands in the ready queue of a scheduler that runs. -/
structure Queued (id : ResourceId) (st : IdentityState) (a : Activity) : Prop where
  state : a.scheduler.stateOf? id = some st
  queued : st.queued = true
  idle : st.inFlight = false
  running : a.scheduler.running = true

/-- The end of another dispatch gives a worker back. -/
theorem Queued.leads_free {st : IdentityState} (h : Queued id st a) (hreachable : Reachable c a)
    (hloop : a.loop = .waiting false) :
    ∃ b more free, Leads id a b ∧ Queued id st b ∧ b.loop = .waiting false ∧
      b.freeWorkers = free + 1 ∧ b.scheduler.ready = a.scheduler.ready ++ more := by
  have hcoherent := hreachable.coherent
  cases hworkers : a.freeWorkers with
  | succ free =>
    exact ⟨a, [], free, leads_refl id a, h, hloop, hworkers, (List.append_nil _).symm⟩
  | zero =>
    have htotal := hcoherent.workers
    have hheld : a.held = 0 := by
      unfold held
      rw [hloop]
    rw [hworkers, hheld] at htotal
    cases hflight : a.inFlight with
    | nil =>
      rw [hflight, List.length_nil] at htotal
      omega
    | cons other rest =>
      -- every worker is at a dispatch, and none of these is of the identity, which is idle
      have hother : other ∈ a.inFlight := hflight ▸ List.mem_cons_self
      obtain ⟨stOther, hstOther, hbusy⟩ := (hcoherent.mem_inFlight_iff other).mp hother
      have hne : id ≠ other := by
        rintro rfl
        obtain rfl : st = stOther := Option.some.inj (h.state.symm.trans hstOther)
        cases h.idle.symm.trans hbusy
      obtain ⟨stats, heq⟩ :=
        a.scheduler.finished_eq other (.failed (.dispatchPanicked other)) stOther hstOther
      obtain ⟨more, hready⟩ := Scheduler.ready_carryOut { a.scheduler with stats } other
        (Decision.onFinished a.scheduler.config stOther (.failed (.dispatchPanicked other)))
      refine ⟨_, more, a.freeWorkers, (Step.finish a other _ hother fun _ => rfl).leads
        fun hid => absurd hid.symm hne, ⟨?_, h.queued, h.idle, ?_⟩, hloop, rfl, ?_⟩
      · dsimp only
        rw [heq, Scheduler.stateOf?_carryOut, if_neg hne]
        exact h.state
      · dsimp only
        rw [heq, Scheduler.running_carryOut]
        exact h.running
      · dsimp only
        rw [heq, hready]

/-- The loop gets a worker. -/
theorem Queued.leads_worker {st : IdentityState} (h : Queued id st a)
    (hreachable : Reachable c a) :
    ∃ b more, Leads id a b ∧ Queued id st b ∧ b.loop = .waiting true ∧
      b.scheduler.ready = a.scheduler.ready ++ more := by
  obtain ⟨_, holds, hloop⟩ := hreachable.attended h.running
  cases holds with
  | true => exact ⟨a, [], leads_refl id a, h, hloop, (List.append_nil _).symm⟩
  | false =>
    obtain ⟨b, more, free, hleads, hb, hloop, hfree, hready⟩ := h.leads_free hreachable hloop
    exact ⟨_, more, hleads.trans ((Step.takeWorker b free hloop hfree).leads trivial),
      ⟨hb.state, hb.queued, hb.idle, hb.running⟩, rfl, hready⟩

/-- At the head of the ready queue, the identity is dispatched next. -/
theorem Queued.leads_next {st : IdentityState} (h : Queued id st a) (hloop : a.loop = .waiting true)
    (rest : List ResourceId) (hready : a.scheduler.ready = id :: rest) :
    ∃ b, Leads id a b ∧ b.scheduler.stateOf? id = some st.begun ∧
      b.scheduler.running = true := by
  obtain ⟨request, retry, s, hbegin⟩ := Scheduler.begin?_of_queued
    { a.scheduler with ready := rest } id st h.state h.queued h.idle
  have hstep := Step.begin a id rest request retry s hloop hready hbegin
  obtain ⟨st', hst', _, _, _, _, rfl⟩ := Scheduler.begin?_eq_some _ id request retry s hbegin
  obtain rfl : st = st' := Option.some.inj (h.state.symm.trans hst')
  refine ⟨_, hstep.leads trivial, ?_, h.running⟩
  exact (Scheduler.stateOf?_put _ id id st.begun).trans (if_pos rfl)

/-- Taking another identity from the ready queue brings the ones behind it forward. -/
theorem Queued.leads_past {st : IdentityState} (h : Queued id st a) (hloop : a.loop = .waiting true)
    (other : ResourceId) (hother : id ≠ other) (rest : List ResourceId)
    (hready : a.scheduler.ready = other :: rest) :
    ∃ b, Leads id a b ∧ Queued id st b ∧ b.scheduler.ready = rest := by
  cases hbegin : ({ a.scheduler with ready := rest } : Scheduler).begin? other with
  | none =>
    exact ⟨_, (Step.discard a other rest hloop hready hbegin).leads trivial,
      ⟨h.state, h.queued, h.idle, h.running⟩, rfl⟩
  | some taken =>
    obtain ⟨⟨request, retry⟩, s⟩ := taken
    have hstep := Step.begin a other rest request retry s hloop hready hbegin
    obtain ⟨stOther, _, _, _, _, _, rfl⟩ :=
      Scheduler.begin?_eq_some _ other request retry s hbegin
    refine ⟨_, hstep.leads trivial, ⟨?_, h.queued, h.idle, h.running⟩, rfl⟩
    exact ((Scheduler.stateOf?_put _ other id stOther.begun).trans (if_neg hother)).trans h.state

/-- The loop comes to the identity in the ready queue. -/
theorem Queued.leads_begun {st : IdentityState} (before after : List ResourceId)
    (h : Queued id st a) (hreachable : Reachable c a)
    (hready : a.scheduler.ready = before ++ id :: after) :
    ∃ b, Leads id a b ∧ b.scheduler.stateOf? id = some st.begun ∧
      b.scheduler.running = true := by
  -- what other dispatches add to the queue meanwhile stands behind, so `before` gets shorter
  induction before generalizing a after with
  | nil =>
    obtain ⟨b, more, hleads, hb, hloop, hmore⟩ := h.leads_worker hreachable
    rw [hready] at hmore
    obtain ⟨d, hnext, hd⟩ := hb.leads_next hloop (after ++ more) hmore
    exact ⟨d, hleads.trans hnext, hd⟩
  | cons other before ih =>
    obtain ⟨b, more, hleads, hb, hloop, hmore⟩ := h.leads_worker hreachable
    rw [hready, List.cons_append, List.cons_append] at hmore
    by_cases hother : id = other
    · subst hother
      obtain ⟨d, hnext, hd⟩ := hb.leads_next hloop _ hmore
      exact ⟨d, hleads.trans hnext, hd⟩
    · obtain ⟨d, hpast, hd, hrest⟩ := hb.leads_past hloop other hother _ hmore
      rw [List.append_assoc, List.cons_append] at hrest
      have hreached := hleads.trans hpast
      obtain ⟨e, hbegun, he⟩ := ih (after ++ more) hd (hreached.reachable hreachable) hrest
      exact ⟨e, hreached.trans hbegun, he⟩

/-- Nothing is left to happen to an identity: no dispatch, no event and no timer. -/
def Settled (id : ResourceId) (a : Activity) : Prop :=
  ∃ st, a.scheduler.stateOf? id = some st ∧ st.inFlight = false ∧ st.event = .quiet ∧
    st.timer = none

/-- An identity between two dispatches, so many of which have begun, while the scheduler runs. -/
structure Resting (n : UInt32) (id : ResourceId) (a : Activity) (k : Nat) : Prop where
  failing : Failing n id a k
  idle : a.scheduler.isInFlight id = false
  running : a.scheduler.running = true
  uncrashed : id ∉ a.crashed

section
variable (hpolicy : c.retry = some policy) (hn : policy.maxAttempts = some n)
  (hinterval : c.maxInterval = none)
include hpolicy hn hinterval

/-- The dispatch under way can fail. -/
theorem Failing.leads_resting (h : Failing n id a k) (hreachable : Reachable c a)
    (hflight : a.scheduler.isInFlight id = true) (hr : a.scheduler.running = true)
    (hcrashed : id ∉ a.crashed) : ∃ b, Leads id a b ∧ Resting n id b k := by
  have hcoherent := hreachable.coherent
  have hfails : FailsTransiently id (.finish id (.failed .shuttingDown)) :=
    .finish _ .shuttingDown rfl rfl
  have hstep := Step.finish a id (.failed .shuttingDown) ((hcoherent.tracked id).mpr hflight)
    fun hmem => absurd hmem hcrashed
  have hund : Undisturbed id (.finish id (.failed .shuttingDown)) := fun _ => hfails
  have hleads := hstep.leads hund
  refine ⟨_, hleads, hstep.failing hpolicy hn hinterval hreachable hund h, ?_, ?_,
    hleads.uncrashed hcrashed⟩
  · dsimp only
    rw [Scheduler.isInFlight_finished _ hcoherent.orderly id id _ hflight, if_pos rfl]
  · obtain ⟨_, _, _, _, heq⟩ := a.scheduler.finished_frame id (.failed .shuttingDown)
    dsimp only
    rw [heq]
    exact hr

/-- An identity with an event goes through one more dispatch. -/
theorem Resting.leads_round (h : Resting n id a k) (hreachable : Reachable c a)
    (hawaits : a.scheduler.Awaits id) : ∃ b, Leads id a b ∧ Resting n id b (k + 1) := by
  have horderly := hreachable.coherent.orderly
  obtain ⟨st, hst, hpending⟩ := hawaits
  cases h.failing with
  | due st' hst' k hk hleft he hidle ht hq =>
    obtain rfl : st = st' := Option.some.inj (hst.symm.trans hst')
    have hfits := horderly id st hst
    have hqueued : st.queued = true := by
      refine (hfits.prompt h.running hpending).resolve_left ?_
      rw [hidle]
      exact Bool.false_ne_true
    obtain ⟨before, after, hready⟩ := List.append_of_mem (hfits.in_ready hqueued)
    have hwaits : Queued id st a := ⟨hst, hqueued, hidle, h.running⟩
    obtain ⟨b, hleads, hstate, hr⟩ := hwaits.leads_begun before after hreachable hready
    have hquiet := st.event_begun hpending
    have hunderway : Failing n id b (k + 1) :=
      .underway st.begun hstate k hk hleft hquiet rfl ht hr
    have hflight : b.scheduler.isInFlight id = true :=
      (b.scheduler.isInFlight_iff id).mpr ⟨st.begun, hstate, rfl⟩
    obtain ⟨d, hfailed, hd⟩ := hunderway.leads_resting hpolicy hn hinterval
      (hleads.reachable hreachable) hflight hr (hleads.uncrashed h.uncrashed)
    exact ⟨d, hleads.trans hfailed, hd⟩
  | underway st' hst' _ _ _ he | waiting st' hst' _ _ _ he | exhausted st' hst' he =>
    obtain rfl : st = st' := Option.some.inj (hst.symm.trans hst')
    cases hpending.symm.trans he

/-- Between two dispatches, either another one can follow or nothing is left to happen. -/
theorem Resting.leads_on (h : Resting n id a k) (hreachable : Reachable c a) :
    Settled id a ∨ ∃ b, Leads id a b ∧ Resting n id b (k + 1) := by
  have hidle := h.idle
  cases h.failing with
  | due st hst k hk hleft he =>
    exact Or.inr (h.leads_round hpolicy hn hinterval hreachable ⟨st, hst, he⟩)
  | underway st hst _ _ _ _ hflight =>
    rw [(a.scheduler.isInFlight_iff id).mpr ⟨st, hst, hflight⟩] at hidle
    cases hidle
  | waiting st hst k hk hleft he _ t ht harmed hid =>
    have hstep := Step.fire a t harmed
    have hleads : Leads id a _ := hstep.leads trivial
    have hacc : st.acceptsEvents = true := st.acceptsEvents_iff.mpr (Or.inl he)
    have hawaits := hstep.records id (.fire t st hid hst ht hacc)
    have hresting : Resting n id { a with scheduler := a.scheduler.timerFired t } k := by
      refine ⟨h.failing.fire t, ?_, ?_, h.uncrashed⟩
      · dsimp only
        rw [Scheduler.isInFlight_timerFired]
        exact h.idle
      · obtain ⟨_, _, _, heq⟩ := a.scheduler.timerFired_frame t
        dsimp only
        rw [heq]
        exact h.running
    obtain ⟨b, hround, hb⟩ := hresting.leads_round hpolicy hn hinterval
      (hleads.reachable hreachable) hawaits
    exact Or.inr ⟨b, hleads.trans hround, hb⟩
  | exhausted st hst he hrest ht => exact Or.inl ⟨st, hst, hrest, he, ht⟩

/-- The retries come to an end: each round takes one of them. -/
theorem Resting.leads_settled (h : Resting n id a k) (hreachable : Reachable c a) :
    ∃ b, Leads id a b ∧ Settled id b := by
  induction hleft : n.toNat + 1 - k generalizing a k with
  | zero =>
    -- one more round would begin more dispatches than there can be
    rcases h.leads_on hpolicy hn hinterval hreachable with hsettled | ⟨b, _, hb⟩
    · exact ⟨a, leads_refl id a, hsettled⟩
    · have hle := hb.failing.le
      omega
  | succ left ih =>
    rcases h.leads_on hpolicy hn hinterval hreachable with hsettled | ⟨b, hleads, hb⟩
    · exact ⟨a, leads_refl id a, hsettled⟩
    · obtain ⟨d, hrest, hd⟩ := ih hb (hleads.reachable hreachable) (by omega)
      exact ⟨d, hleads.trans hrest, hd⟩

/-- From wherever it stands, an identity whose dispatches fail can come to the last failure. -/
theorem Failing.leads_settled (h : Failing n id a k) (hreachable : Reachable c a)
    (hr : a.scheduler.running = true) (hcrashed : id ∉ a.crashed) :
    ∃ b, Leads id a b ∧ Settled id b := by
  cases hflight : a.scheduler.isInFlight id with
  | false =>
    have hresting : Resting n id a k := ⟨h, hflight, hr, hcrashed⟩
    exact hresting.leads_settled hpolicy hn hinterval hreachable
  | true =>
    obtain ⟨b, hleads, hb⟩ :=
      h.leads_resting hpolicy hn hinterval hreachable hflight hr hcrashed
    obtain ⟨d, hrest, hd⟩ :=
      hb.leads_settled hpolicy hn hinterval (hleads.reachable hreachable)
    exact ⟨d, hleads.trans hrest, hd⟩

end

/-- Where nothing is left to happen, the last dispatch has failed for good. -/
theorem Failing.last (h : Failing n id a k) (hsettled : Settled id a) :
    k = n.toNat + 1 ∧ ∃ st message, a.scheduler.stateOf? id = some st ∧
      st.lastFailure = some ⟨message, .transient, n, true⟩ := by
  obtain ⟨st, hst, hidle, hquiet, htimer⟩ := hsettled
  cases h with
  | due st' hst' _ _ _ he =>
    obtain rfl : st = st' := Option.some.inj (hst.symm.trans hst')
    cases hquiet.symm.trans he
  | underway st' hst' _ _ _ _ hflight =>
    obtain rfl : st = st' := Option.some.inj (hst.symm.trans hst')
    cases hidle.symm.trans hflight
  | waiting st' hst' _ _ _ _ _ t ht =>
    obtain rfl : st = st' := Option.some.inj (hst.symm.trans hst')
    cases htimer.symm.trans ht
  | exhausted st' hst' _ _ _ message hlast => exact ⟨rfl, st', message, hst', hlast⟩

/-- What follows a trigger of an identity whose dispatches all fail: in any run there is at most
one dispatch more than there are retries; it is exactly one more when nothing is left to happen,
and then the failure is recorded as the last one; and there is always a way to come to that. -/
structure Exhausts (n : UInt32) (id : ResourceId) (ms : List Move) (b : Activity) : Prop where
  bounded : begins id ms ≤ n.toNat + 1
  last : Settled id b → begins id ms = n.toNat + 1 ∧
    ∃ st message, b.scheduler.stateOf? id = some st ∧
      st.lastFailure = some ⟨message, .transient, n, true⟩
  ends : b.scheduler.running = true →
    ∃ ms' b', Trace b ms' b' ∧ (∀ m ∈ ms', Undisturbed id m) ∧ Settled id b'

/-- An identity that had no state, and whose dispatches all fail after one trigger, uses up its
retries. -/
theorem Reachable.exhausts (h : Reachable c a) (hpolicy : c.retry = some policy)
    (hn : policy.maxAttempts = some n) (hinterval : c.maxInterval = none)
    (hnew : a.scheduler.stateOf? id = none) (cause : TriggerCause) (hcause : cause ≠ .deleted)
    (terminating : Bool) (ms : List Move)
    (htrace : Trace a (.submit id cause terminating :: ms) b)
    (hms : ∀ m ∈ ms, Undisturbed id m) : Exhausts n id ms b := by
  cases htrace with
  | cons hstep hrest =>
    have hcrashed : id ∉ a.crashed := by
      intro hmem
      obtain ⟨st, hst, _⟩ := (h.coherent.mem_inFlight_iff id).mp (h.crashing.inFlight id hmem)
      cases hnew.symm.trans hst
    have hnext := h.extend (.cons hstep (.nil _))
    cases hstep with
    | submit =>
      have hfailing := hrest.failing hpolicy hn hinterval hnext hms
        (failing_of_submit a cause hcause terminating hnew)
      rw [Nat.zero_add] at hfailing
      refine ⟨hfailing.le, hfailing.last, fun hr => ?_⟩
      obtain ⟨d, ⟨ms', htrace', hms'⟩, hd⟩ := hfailing.leads_settled hpolicy hn hinterval
        (hnext.extend hrest) hr (hrest.uncrashed hms hcrashed)
      exact ⟨ms', d, htrace', hms', hd⟩

/-- The budget of retries of an identity, in a scheduler that repeats failed dispatches by a policy.
A step starts the retries anew, with a count of zero, or it leaves them as they are, unless a
dispatch fails for a transient reason without an event pending; then one is used up with a timer. So
between two new starts the count is the number of timers for retries, with the delays of the policy
in turn and within its bound. Every state lies in such a span. Where all dispatches fail after one
trigger, the retries are used up and no more: one dispatch more than there are retries begins, and
the last failure is on record as final. -/
theorem Reachable.retries_budgeted (c : SchedulerConfig) (policy : RetryPolicy)
    (hpolicy : c.retry = some policy) (id : ResourceId) :
    (∀ a m b, Reachable c a → Step a m b →
      (Resets id m b → b.scheduler.attempts id = 0) ∧
      (¬Resets id m b → a.scheduler.SameRetries b.scheduler id ∨
        (FailsTransiently id m ∧ a.scheduler.SpendsRetry b.scheduler policy id))) ∧
    (∀ a b, Reachable c a → a.scheduler.attempts id = 0 → Spans id a b →
      ∃ timers, Budgeted policy id a b timers) ∧
    (∀ b, Reachable c b →
      ∃ a, Reachable c a ∧ a.scheduler.attempts id = 0 ∧ Spans id a b) ∧
    ∀ n, policy.maxAttempts = some n → c.maxInterval = none →
      ∀ a cause terminating ms b, Reachable c a → a.scheduler.stateOf? id = none →
        cause ≠ .deleted → Trace a (.submit id cause terminating :: ms) b →
          (∀ m ∈ ms, Undisturbed id m) → Exhausts n id ms b := by
  refine ⟨fun a m b h hstep => ?_, fun a b h hzero hspan => (hspan.budgeted hpolicy h id hzero).2,
    fun b h => h.spanned hpolicy id, fun n hn hinterval a cause terminating ms b h hnew hcause
      htrace hms => h.exhausts hpolicy hn hinterval hnew cause hcause terminating ms htrace hms⟩
  obtain ⟨hconfig, hgov⟩ := h.governed hpolicy
  exact (hstep.retries hconfig hgov).2 id

/-- Three quick retries follow the first dispatch of a new identity, and then nothing. -/
theorem retries_budgeted_quick :
    ∃ a ms b, Reachable { retry := some .quick } a ∧
      Trace a (.submit ⟨"App", none, "app"⟩ .added false :: ms) b ∧
      begins ⟨"App", none, "app"⟩ ms = 4 ∧ Settled ⟨"App", none, "app"⟩ b ∧
      ∃ st message, b.scheduler.stateOf? ⟨"App", none, "app"⟩ = some st ∧
        st.lastFailure = some ⟨message, .transient, 3, true⟩ := by
  obtain ⟨_, _, _, hexhausts⟩ := Reachable.retries_budgeted { retry := some .quick } .quick rfl
    ⟨"App", none, "app"⟩
  have hrun : ((fresh { retry := some .quick }).replay? [.run]).any (fun a =>
      a.scheduler.stateOf? ⟨"App", none, "app"⟩ = none ∧
        (a.scheduler.trigger ⟨"App", none, "app"⟩ .added false).running = true) = true := by
    decide
  obtain ⟨a, hreplay, hstate⟩ := (Option.any_eq_true _ _).mp hrun
  obtain ⟨hnew, hrunning⟩ := of_decide_eq_true hstate
  have hreachable : Reachable { retry := some .quick } a := ⟨_, replay?_sound _ a _ hreplay⟩
  have hsubmit := Step.submit a ⟨"App", none, "app"⟩ .added false
  obtain ⟨ms, b, htrace, hms, hsettled⟩ := (hexhausts 3 rfl rfl a .added false [] _ hreachable hnew
    nofun (.cons hsubmit (.nil _)) fun _ h => absurd h List.not_mem_nil).ends hrunning
  have htrace := Trace.cons hsubmit htrace
  obtain ⟨hbegins, hlast⟩ :=
    (hexhausts 3 rfl rfl a .added false ms b hreachable hnew nofun htrace hms).last hsettled
  exact ⟨a, ms, b, hreachable, htrace, hbegins, hsettled, hlast⟩

end Activity
end Reconciliation
