import Mathlib.Logic.Relation
import Reconciliation.Proofs.Scheduler.Budget

/-!
Retries over whole runs. Between two new starts, the count of attempts of an identity is the
number of timers that were armed for its retries; it never passes the bound of the policy, and
the delays of the timers are those of the policy, one attempt after another.
-/
namespace Reconciliation

namespace Activity
variable {c : SchedulerConfig} {policy : RetryPolicy} {a b : Activity} {m : Move}

/-- The retries of an identity start anew: a dispatch of it has ended without an error, or
nothing is known of it any more. -/
inductive Resets (id : ResourceId) : Move → Activity → Prop
  | success (summary : DispatchSummary) (hn : summary.error = none) (b : Activity) :
      Resets id (.finish id summary) b
  | forgotten (m : Move) (b : Activity) (hst : b.scheduler.stateOf? id = none) : Resets id m b

/-- A dispatch of the identity fails for a transient reason. -/
inductive FailsTransiently (id : ResourceId) : Move → Prop
  | finish (summary : DispatchSummary) (e : Error) (he : summary.error = some e)
      (hc : Scheduler.classOf e summary.noRetry = .transient) :
      FailsTransiently id (.finish id summary)

/-- No step changes the limits that a scheduler keeps. -/
theorem Step.config_eq (hstep : Step a m b) : b.scheduler.config = a.scheduler.config := by
  cases hstep with
  | submit id cause terminating =>
    obtain ⟨_, _, _, heq⟩ := a.scheduler.trigger_frame id cause terminating
    rw [heq]
  | reschedule id delay =>
    obtain ⟨_, _, _, heq⟩ := a.scheduler.reschedule_frame id delay
    rw [heq]
  | fire t ht =>
    obtain ⟨_, _, _, heq⟩ := a.scheduler.timerFired_frame t
    rw [heq]
  | run s hs =>
    obtain ⟨_, _, rfl⟩ := a.scheduler.run_frame s hs
    rfl
  | begin id rest request retry s hl hr hb =>
    obtain ⟨_, _, _, _, _, _, rfl⟩ := Scheduler.begin?_eq_some _ id request retry s hb
    rfl
  | finish id summary hf hc =>
    obtain ⟨_, _, _, _, heq⟩ := a.scheduler.finished_frame id summary
    rw [heq]
  | refuse | stop | takeWorker | discard | crash | leave | conclude => rfl

/-- Nothing but the end of a dispatch touches the retries of an identity. -/
theorem Step.spares (hstep : Step a m b) (hg : a.scheduler.Governed policy)
    (hm : ∀ id summary, m ≠ .finish id summary) :
    a.scheduler.SparesRetries b.scheduler policy := by
  have hsame : ∀ s : Scheduler, s.states = a.scheduler.states → s.armed = a.scheduler.armed →
      a.scheduler.SparesRetries s policy := by
    intro s hstates harmed
    refine a.scheduler.spares_of_map s policy hg id (fun _ => rfl) (fun k => ?_) harmed
    unfold Scheduler.stateOf?
    rw [hstates, Option.map_id, id]
  cases hstep with
  | submit id cause terminating =>
    dsimp only
    rw [Scheduler.trigger_eq]
    exact Scheduler.spares_carryOut? _ policy hg id _
      (Decision.onTrigger_spares (hg id) cause terminating)
  | reschedule id delay =>
    dsimp only
    rw [Scheduler.reschedule_eq]
    exact Scheduler.spares_carryOut? _ policy hg id _ (Decision.onReschedule_spares (hg id) delay)
  | fire t ht =>
    dsimp only
    rw [Scheduler.timerFired_eq]
    exact Scheduler.spares_carryOut? _ policy hg t.id _ (Decision.onTimer_spares (hg t.id) t)
  | run s hs =>
    obtain ⟨_, rfl⟩ := Scheduler.run_eq_ok _ s hs
    refine a.scheduler.spares_of_map _ policy hg IdentityState.promoted (fun st => ?_)
      (Scheduler.stateOf?_enqueuePending _ rfl) ?_
    · unfold IdentityState.promoted
      split <;> rfl
    · obtain ⟨_, _, heq⟩ := Scheduler.run_frame _ _ hs
      rw [heq]
  | begin id rest request retry s hl hr hb =>
    obtain ⟨st, hst, _, _, _, _, rfl⟩ := Scheduler.begin?_eq_some _ id request retry s hb
    have hgov : st.Governed policy := hg id st hst
    have hspares := Scheduler.spares_carryOut? { a.scheduler with ready := rest } policy hg id
      (some (.keep st.begun)) fun d hd => by
        obtain rfl := Option.some.inj hd
        rw [Scheduler.attempts_of_state _ id st hst]
        exact Decision.spares_keep hgov st.begun rfl
    exact ⟨hspares.governed, fun k => ⟨(hspares.same k).attempts_eq, (hspares.same k).timers_eq⟩⟩
  | conclude hl hf =>
    exact a.scheduler.spares_of_map _ policy hg IdentityState.cancelTimer (fun _ => rfl)
      (Scheduler.stateOf?_ended _) rfl
  | finish id summary => exact absurd rfl (hm id summary)
  | refuse | stop | takeWorker | discard | crash | leave => exact hsame _ rfl rfl

/-- One step starts the retries of an identity anew, uses one up, or leaves them as they are. -/
theorem Step.retries (hstep : Step a m b) (hpolicy : a.scheduler.config.retry = some policy)
    (hg : a.scheduler.Governed policy) :
    b.scheduler.Governed policy ∧ ∀ id, (Resets id m b → b.scheduler.attempts id = 0) ∧
      (¬Resets id m b → a.scheduler.SameRetries b.scheduler id ∨
        (FailsTransiently id m ∧ a.scheduler.SpendsRetry b.scheduler policy id)) := by
  cases m with
  | finish id summary =>
    cases hstep with
    | finish _ _ hf hc =>
      obtain ⟨hgov, hother, hrenewed, hfailed⟩ :=
        a.scheduler.retries_finished policy hpolicy hg id summary
      refine ⟨hgov, fun k => ⟨fun hr => ?_, fun hr => ?_⟩⟩
      · cases hr with
        | success _ hn => exact hrenewed hn
        | forgotten _ _ hst => exact Scheduler.attempts_of_forgotten _ k hst
      · by_cases hk : k = id
        · subst hk
          cases he : summary.error with
          | none => exact absurd (.success summary he _) hr
          | some e =>
            rcases hfailed e he with hsame | ⟨hc, hspends⟩
            · exact Or.inl hsame
            · exact Or.inr ⟨.finish summary e he hc, hspends⟩
        · exact Or.inl (hother k hk)
  | _ =>
    have hspares := hstep.spares hg (by rintro _ _ ⟨⟩)
    refine ⟨hspares.governed, fun id => ⟨fun hr => ?_, fun _ => Or.inl (hspares.same id)⟩⟩
    cases hr with
    | forgotten _ _ hst => exact Scheduler.attempts_of_forgotten _ id hst

theorem Reachable.config_eq (h : Reachable c a) : a.scheduler.config = c :=
  h.preserves (fun _ _ _ hstep ha => hstep.config_eq.trans ha) rfl

theorem Reachable.governed (h : Reachable c a) (hpolicy : c.retry = some policy) :
    a.scheduler.config.retry = some policy ∧ a.scheduler.Governed policy := by
  have hstep : ∀ a m b, Step a m b →
      a.scheduler.config.retry = some policy ∧ a.scheduler.Governed policy →
        b.scheduler.config.retry = some policy ∧ b.scheduler.Governed policy :=
    fun a m b hstep ha => ⟨hstep.config_eq ▸ ha.1, (hstep.retries ha.1 ha.2).1⟩
  exact h.preserves hstep ⟨hpolicy, fun _ _ hst => nomatch hst⟩

/-- A run in which the retries of an identity never start anew. -/
def Spans (id : ResourceId) : Activity → Activity → Prop :=
  Relation.ReflTransGen fun a b => ∃ m, Step a m b ∧ ¬Resets id m b

/-- What the retries of an identity come to in a run, from a state in which it has none. -/
structure Budgeted (policy : RetryPolicy) (id : ResourceId) (a b : Activity)
    (timers : List ArmedTimer) : Prop where
  armed : b.scheduler.retryTimers id = timers ++ a.scheduler.retryTimers id
  counted : (b.scheduler.attempts id).toNat = min timers.length (UInt32.size - 1)
  bounded : ∀ n, policy.maxAttempts = some n → timers.length ≤ n.toNat
  delays : timers.reverse.map (·.delay) = (List.range timers.length).map fun k =>
    policy.delayFor (.ofNat (min (k + 1) (UInt32.size - 1)))

theorem budgeted_refl (policy : RetryPolicy) (id : ResourceId) (a : Activity)
    (hzero : a.scheduler.attempts id = 0) : Budgeted policy id a a [] := by
  refine ⟨rfl, ?_, fun _ _ => Nat.zero_le _, rfl⟩
  rw [hzero]
  rfl

section
variable {id : ResourceId} {s : Activity} {timers : List ArmedTimer}

theorem Budgeted.same (h : Budgeted policy id s a timers)
    (hsame : a.scheduler.SameRetries b.scheduler id)
    (hknown : b.scheduler.stateOf? id ≠ none) : Budgeted policy id s b timers := by
  obtain ⟨st, hst⟩ := Option.ne_none_iff_exists'.mp hknown
  have hattempts : b.scheduler.attempts id = a.scheduler.attempts id := by
    rw [b.scheduler.attempts_of_state id st hst]
    exact hsame.attempts_eq st hst
  refine ⟨?_, ?_, h.bounded, h.delays⟩
  · rw [hsame.timers_eq]
    exact h.armed
  · rw [hattempts]
    exact h.counted

/-- A retry that is used up adds its timer in front. -/
theorem Budgeted.spend (h : Budgeted policy id s a timers)
    (hspends : a.scheduler.SpendsRetry b.scheduler policy id) :
    ∃ t, Budgeted policy id s b (t :: timers) := by
  obtain ⟨token, harmed⟩ := hspends.armed
  have hsize : UInt32.size = 4294967296 := rfl
  have hcounted := h.counted
  have hattempts : (b.scheduler.attempts id).toNat =
      min (timers.length + 1) (UInt32.size - 1) := by
    rw [hspends.counted]
    omega
  refine ⟨⟨id, token, policy.delayFor (b.scheduler.attempts id), .retry⟩, ?_, ?_, ?_, ?_⟩
  · rw [harmed, h.armed, List.cons_append]
  · rw [hattempts, List.length_cons]
  · intro n hn
    have hleft := UInt32.lt_iff_toNat_lt.mp (hspends.left n hn)
    have hbound := n.toNat_lt
    rw [List.length_cons]
    omega
  · have hdelay : policy.delayFor (b.scheduler.attempts id) =
        policy.delayFor (.ofNat (min (timers.length + 1) (UInt32.size - 1))) := by
      rw [← hattempts, UInt32.ofNat_toNat]
    rw [List.reverse_cons, List.map_append, h.delays, List.length_cons, List.range_succ,
      List.map_append, List.map_singleton, List.map_singleton, hdelay]

end

/-- Between two new starts the retries keep to the budget. -/
theorem Spans.budgeted (hpolicy : c.retry = some policy) (h : Reachable c a) (id : ResourceId)
    (hzero : a.scheduler.attempts id = 0) (hspan : Spans id a b) :
    Reachable c b ∧ ∃ timers, Budgeted policy id a b timers := by
  induction hspan with
  | refl => exact ⟨h, [], budgeted_refl policy id a hzero⟩
  | tail _ hnext ih =>
    obtain ⟨hreachable, timers, hbudgeted⟩ := ih
    obtain ⟨m, hstep, hn⟩ := hnext
    obtain ⟨hconfig, hgov⟩ := hreachable.governed hpolicy
    refine ⟨hreachable.extend (.cons hstep (.nil _)), ?_⟩
    rcases ((hstep.retries hconfig hgov).2 id).2 hn with hsame | ⟨_, hspends⟩
    · exact ⟨timers, hbudgeted.same hsame fun hst => hn (.forgotten m _ hst)⟩
    · obtain ⟨t, hbudgeted⟩ := hbudgeted.spend hspends
      exact ⟨t :: timers, hbudgeted⟩

/-- Every state lies in a span that began without retries. -/
theorem Reachable.spanned (h : Reachable c a) (hpolicy : c.retry = some policy) (id : ResourceId) :
    ∃ s, Reachable c s ∧ s.scheduler.attempts id = 0 ∧ Spans id s a := by
  have hstep : ∀ a m b, Step a m b →
      (Reachable c a ∧ ∃ s, Reachable c s ∧ s.scheduler.attempts id = 0 ∧ Spans id s a) →
        Reachable c b ∧ ∃ s, Reachable c s ∧ s.scheduler.attempts id = 0 ∧ Spans id s b := by
    rintro a m b hstep ⟨hreachable, s, hs, hzero, hspan⟩
    have hnext := hreachable.extend (.cons hstep (.nil _))
    refine ⟨hnext, ?_⟩
    -- a step that starts the retries anew begins a span of its own
    by_cases hr : Resets id m b
    · obtain ⟨hconfig, hgov⟩ := hreachable.governed hpolicy
      exact ⟨b, hnext, ((hstep.retries hconfig hgov).2 id).1 hr, .refl⟩
    · exact ⟨s, hs, hzero, hspan.tail ⟨m, hstep, hr⟩⟩
  have hfresh : Reachable c (fresh c) := ⟨[], .nil _⟩
  exact (h.preserves hstep ⟨hfresh, fresh c, hfresh, rfl, .refl⟩).2

end Activity
end Reconciliation
