import Reconciliation.Proofs.Scheduler.Failing

/-!
What the beginning of a dispatch tells of its end. A dispatch takes a picture of the retries of
its identity when it begins. Until it ends, nothing but a trigger changes what the scheduler
will do after a failure, so the picture shows whether a timer for a retry will follow.
-/
namespace Reconciliation

/-- Progress follows one policy only, so an identity that follows all of them has made none. -/
theorem IdentityState.retry_eq_none_of_governed (st : IdentityState)
    (h : ∀ policy, st.Governed policy) : st.retry = none := by
  cases hretry : st.retry with
  | none => rfl
  | some e =>
    have hquick := congrArg RetryPolicy.maxAttempts (h .quick e hretry)
    have hnever := congrArg RetryPolicy.maxAttempts (h .never e hretry)
    cases hquick.symm.trans hnever

namespace Decision
variable {policy : RetryPolicy} {st : IdentityState}

/-- With retries switched off a failure is noted, and the progress stays as it is. -/
theorem afterFailure_spares_of_disabled (config : SchedulerConfig) (hoff : config.retry = none)
    (h : st.Governed policy) (e : Error) (summary : DispatchSummary) :
    (afterFailure config st e summary).Spares policy st.attempts := by
  unfold afterFailure
  split
  · exact spares_drop h
  · cases Scheduler.classOf e summary.noRetry with
    | conflict => exact spares_enqueue h _ (st.retry_markEvent .retry)
    | terminal => exact afterTerminal_spares h e summary.reschedule
    | transient =>
      dsimp only
      unfold afterTransient
      rw [hoff]
      dsimp only
      split
      · exact spares_enqueue h _ rfl
      · exact spares_keep h _ rfl

theorem onFinished_governed_of_disabled (config : SchedulerConfig) (hoff : config.retry = none)
    (h : st.Governed policy) (summary : DispatchSummary) (st' : IdentityState)
    (hst' : (onFinished config st summary).state? = some st') : st'.Governed policy := by
  unfold onFinished at hst'
  cases he : summary.error with
  | some e =>
    rw [he] at hst'
    have hidle : ({ st with inFlight := false } : IdentityState).Governed policy := h
    exact (afterFailure_spares_of_disabled config hoff hidle e summary).governed st' hst'
  | none =>
    rw [he] at hst'
    exact (afterSuccess_spares policy config _ summary).governed st' hst'

end Decision

namespace Activity
variable {c : SchedulerConfig} {policy : RetryPolicy} {id : ResourceId} {a b : Activity} {m : Move}

/-- With retries switched off, no step starts any. -/
theorem Step.governed_of_disabled (hstep : Step a m b) (hoff : a.scheduler.config.retry = none)
    (hg : a.scheduler.Governed policy) : b.scheduler.Governed policy := by
  cases m with
  | finish id summary =>
    cases hstep with
    | finish _ _ hf hc =>
      dsimp only
      cases hst : a.scheduler.stateOf? id with
      | none =>
        unfold Scheduler.finished
        rw [hst]
        exact hg
      | some st =>
        obtain ⟨stats, heq⟩ := a.scheduler.finished_eq id summary st hst
        rw [heq]
        exact Scheduler.governed_carryOut { a.scheduler with stats } policy hg id _
          (Decision.onFinished_governed_of_disabled _ hoff (hg id st hst) summary)
  | _ => exact (hstep.spares hg (by rintro _ _ ⟨⟩)).governed

/-- With retries switched off no identity makes progress through any policy. -/
theorem Reachable.unretried (h : Reachable c a) (hoff : c.retry = none) (st : IdentityState)
    (hst : a.scheduler.stateOf? id = some st) : st.retry = none := by
  refine st.retry_eq_none_of_governed fun policy => ?_
  have hstep : ∀ a m b, Step a m b →
      a.scheduler.config.retry = none ∧ a.scheduler.Governed policy →
        b.scheduler.config.retry = none ∧ b.scheduler.Governed policy :=
    fun a m b hstep ha => ⟨hstep.config_eq ▸ ha.1, hstep.governed_of_disabled ha.1 ha.2⟩
  exact (h.preserves hstep ⟨hoff, fun _ _ hst => nomatch hst⟩).2 id st hst

/-- The moves that bring a trigger to an identity: a change that is reported, and the timer that
the identity waits for. -/
inductive Triggers (id : ResourceId) (a : Activity) : Move → Prop
  | submit (cause : TriggerCause) (terminating : Bool) :
      Triggers id a (.submit id cause terminating)
  | fire (t : ArmedTimer) (hid : t.id = id) (st : IdentityState)
      (hst : a.scheduler.stateOf? id = some st) (ht : st.timer = some t.token) :
      Triggers id a (.fire t)

/-- A run in which no trigger of the identity arrives and no dispatch of it ends. -/
def Passes (id : ResourceId) : Activity → Activity → Prop :=
  Relation.ReflTransGen fun a b =>
    ∃ m, Step a m b ∧ ¬Triggers id a m ∧ ∀ summary, m ≠ .finish id summary

/-- A dispatch of the identity is in flight, with this progress, and no event has come in since
it began. -/
def Underway (id : ResourceId) (progress : Option RetryProgress) (a : Activity) : Prop :=
  ∃ st, a.scheduler.stateOf? id = some st ∧ st.inFlight = true ∧ st.event = .quiet ∧
    st.retry = progress

variable {progress : Option RetryProgress}

theorem Underway.of_state (h : Underway id progress a)
    (hstate : b.scheduler.stateOf? id = a.scheduler.stateOf? id) : Underway id progress b := by
  obtain ⟨st, hst, hst'⟩ := h
  exact ⟨st, hstate.trans hst, hst'⟩

/-- A decision on another identity changes nothing for the dispatch. -/
theorem Underway.of_other (h : Underway id progress a) (other : ResourceId) (hne : id ≠ other)
    (d? : Option Decision) (s : Scheduler) (hs : s.states = a.scheduler.states)
    (hb : b.scheduler = s.carryOut? other d?) : Underway id progress b := by
  refine h.of_state ?_
  have hsame : s.stateOf? id = a.scheduler.stateOf? id := by
    unfold Scheduler.stateOf?
    rw [hs]
  rw [hb, ← hsame]
  cases d? with
  | none => rfl
  | some d => exact (s.stateOf?_carryOut other id d).trans (if_neg hne)

/-- A call to reschedule arms a timer and lets the dispatch go on as it began. -/
theorem Underway.reschedule (h : Underway id progress a) (delay : Span) :
    Underway id progress { a with scheduler := a.scheduler.reschedule id delay } := by
  obtain ⟨st, hst, hflight, hquiet, hretry⟩ := h
  have hkept : st.isDeleted = false := by
    unfold IdentityState.isDeleted
    rw [hquiet]
    rfl
  refine ⟨{ st with timer := some a.scheduler.armed.length }, ?_, hflight, hquiet, hretry⟩
  dsimp only
  unfold Scheduler.reschedule Scheduler.stateOf
  rw [hst]
  dsimp only [Option.getD_some]
  rw [hkept, if_neg Bool.false_ne_true, Scheduler.stateOf?_arm, if_pos rfl]

/-- What may only have been queued or have lost its timer is in flight as before. -/
theorem Underway.of_map (h : Underway id progress a) (f : IdentityState → IdentityState)
    (hf : ∀ st, st.event = .quiet → (f st).inFlight = st.inFlight ∧ (f st).event = st.event ∧
      (f st).retry = st.retry)
    (hstate : b.scheduler.stateOf? id = (a.scheduler.stateOf? id).map f) :
    Underway id progress b := by
  obtain ⟨st, hst, hflight, hquiet, hretry⟩ := h
  obtain ⟨hflight', hevent', hretry'⟩ := hf st hquiet
  refine ⟨f st, ?_, hflight'.trans hflight, hevent'.trans hquiet, hretry'.trans hretry⟩
  rw [hstate, hst]
  rfl

/-- An identity whose dispatch is under way is not handed out. -/
theorem Underway.ne_of_begin (h : Underway id progress a) (other : ResourceId)
    (rest : List ResourceId) (request : ReconciliationRequest) (retry : Option RetryInfo)
    (s : Scheduler) (hb : ({ a.scheduler with ready := rest }).begin? other =
      some ((request, retry), s)) : id ≠ other := by
  rintro rfl
  obtain ⟨st, hst, _, hidle, _⟩ := Scheduler.begin?_eq_some _ id request retry s hb
  obtain ⟨st', hst', hflight, _⟩ := h
  obtain rfl : st = st' := Option.some.inj (hst.symm.trans hst')
  cases hidle.symm.trans hflight

theorem Underway.finish_other (h : Underway id progress a) (other : ResourceId) (hne : id ≠ other)
    (summary : DispatchSummary) (hb : b.scheduler = a.scheduler.finished other summary) :
    Underway id progress b := by
  cases hst : a.scheduler.stateOf? other with
  | none =>
    refine h.of_state ?_
    rw [hb, Scheduler.finished, hst]
  | some st =>
    obtain ⟨stats, heq⟩ := a.scheduler.finished_eq other summary st hst
    exact h.of_other other hne (some _) { a.scheduler with stats } rfl (hb.trans heq)

/-- While no trigger of the identity arrives, its dispatch goes on as it began. -/
theorem Step.underway (hstep : Step a m b) (ht : ¬Triggers id a m)
    (hf : ∀ summary, m ≠ .finish id summary) (h : Underway id progress a) :
    Underway id progress b := by
  cases hstep with
  | submit other cause terminating =>
    have hne : id ≠ other := by
      rintro rfl
      exact ht (.submit cause terminating)
    exact h.of_other other hne _ a.scheduler rfl (a.scheduler.trigger_eq other cause terminating)
  | reschedule other delay =>
    by_cases hne : id = other
    · subst hne
      exact h.reschedule delay
    · exact h.of_other other hne _ a.scheduler rfl (a.scheduler.reschedule_eq other delay)
  | fire t =>
    by_cases hne : id = t.id
    · have hstale : a.scheduler.timerFired t = a.scheduler :=
        timerFired_of_stale _ t fun st hst htoken => ht (.fire t hne.symm st (hne ▸ hst) htoken)
      refine h.of_state ?_
      dsimp only
      rw [hstale]
    · exact h.of_other t.id hne _ a.scheduler rfl (a.scheduler.timerFired_eq t)
  | run s hs =>
    obtain ⟨_, rfl⟩ := Scheduler.run_eq_ok _ s hs
    refine h.of_map IdentityState.promoted (fun st hquiet => ?_)
      (Scheduler.stateOf?_enqueuePending _ rfl id)
    unfold IdentityState.promoted
    split <;> exact ⟨rfl, rfl, rfl⟩
  | begin other rest request retry s hl hr hb =>
    have hne := h.ne_of_begin other rest request retry s hb
    obtain ⟨st, _, _, _, _, _, rfl⟩ := Scheduler.begin?_eq_some _ other request retry s hb
    exact h.of_other other hne (some (.keep st.begun))
      { a.scheduler with ready := rest, stats.dispatched := a.scheduler.stats.dispatched + 1 }
      rfl rfl
  | finish other summary hflight hc =>
    have hne : id ≠ other := by
      rintro rfl
      exact hf summary rfl
    exact h.finish_other other hne summary rfl
  | conclude =>
    exact h.of_map IdentityState.cancelTimer (fun _ _ => ⟨rfl, rfl, rfl⟩)
      (Scheduler.stateOf?_ended _ id)
  | refuse | stop | takeWorker | discard | crash | leave => exact h.of_state rfl

theorem Passes.underway (h : Passes id a b) (ha : Underway id progress a) :
    Underway id progress b := by
  induction h with
  | refl => exact ha
  | tail _ hnext ih =>
    obtain ⟨m, hstep, ht, hf⟩ := hnext
    exact hstep.underway ht hf ih

theorem Passes.trace (h : Passes id a b) : ∃ ms, Trace a ms b := by
  induction h with
  | refl => exact ⟨[], .nil _⟩
  | tail _ hnext ih =>
    obtain ⟨ms, htrace⟩ := ih
    obtain ⟨m, hstep, _⟩ := hnext
    exact ⟨ms ++ [m], htrace.append (.cons hstep (.nil _))⟩

/-- A dispatch begins with a picture of the progress of its identity. -/
theorem Step.begin_underway (request : ReconciliationRequest) (retry : Option RetryInfo)
    (hstep : Step a (.begin request retry) b) (hsound : a.scheduler.Orderly) :
    ∃ st, a.scheduler.stateOf? request.id = some st ∧ retry = st.retry.map RetryProgress.info ∧
      Underway request.id st.retry b := by
  cases hstep with
  | begin other rest _ _ s hl hr hb =>
    obtain ⟨st, hst, hq, _, rfl, rfl, rfl⟩ := Scheduler.begin?_eq_some _ other request retry s hb
    have hst : a.scheduler.stateOf? other = some st := hst
    have hpending := (hsound other st hst).sound.queued_pending hq
    refine ⟨st, hst, rfl, st.begun, ?_, rfl, st.event_begun hpending, rfl⟩
    exact (Scheduler.stateOf?_put _ other other st.begun).trans (if_pos rfl)

/-- Whether attempts are left decides whether the failure of the dispatch is followed by a timer
for a retry. -/
theorem Underway.retryTimers_finish (h : Underway id progress a)
    (hconfig : a.scheduler.config.retry = some policy) (hgov : a.scheduler.Governed policy)
    (summary : DispatchSummary) (hfails : FailsTransiently id (.finish id summary)) :
    (a.scheduler.finished id summary).retryTimers id = a.scheduler.retryTimers id ↔
      (progress.getD { policy }).isExhausted = true := by
  obtain ⟨st, hst, _, hquiet, rfl⟩ := h
  obtain ⟨e, he, hc⟩ : ∃ e, summary.error = some e ∧
      Scheduler.classOf e summary.noRetry = .transient := by
    cases hfails with
    | finish _ e he hc => exact ⟨e, he, hc⟩
  obtain ⟨stats, heq⟩ := a.scheduler.finished_eq id summary st hst
  rw [onFinished_transient _ st summary hquiet e he hc] at heq
  have hidle : ({ st with inFlight := false } : IdentityState).Governed policy := hgov id st hst
  have hp : st.event ≠ .pending := by
    rw [hquiet]
    decide
  unfold Scheduler.retryTimers
  rw [heq, Scheduler.armed_carryOut, List.filter_append]
  dsimp only
  cases hexhausted : (st.retry.getD { policy }).isExhausted with
  | true =>
    obtain ⟨execution, _, _, hdecision⟩ := Decision.afterTransient_of_exhausted hidle
      a.scheduler.config hconfig hp hexhausted e
    rw [hdecision]
    cases a.scheduler.config.maxInterval <;> simp
  | false =>
    obtain ⟨execution, _, _, hdecision⟩ := Decision.afterTransient_of_left hidle
      a.scheduler.config hconfig hp hexhausted e
    rw [hdecision]
    simp

end Activity

/-- The first failure is not the last one unless there are no retries at all. -/
theorem RetryPolicy.isExhausted_fresh (policy : RetryPolicy) :
    ({ policy } : RetryProgress).isExhausted = true ↔ policy.maxAttempts = some 0 := by
  unfold RetryProgress.isExhausted
  dsimp only
  cases policy.maxAttempts with
  | none => simp
  | some n => simp [UInt32.le_zero_iff]

end Reconciliation
