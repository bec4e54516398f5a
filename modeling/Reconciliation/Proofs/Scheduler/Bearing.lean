import Reconciliation.Proofs.Scheduler.Accounting
import Reconciliation.Proofs.Scheduler.Coherence

/-!
What a step means for one identity. A move decides about the identity that it names and leaves
all others alone; only a call of the loop and its end touch all identities at once. So what is
kept of single identities is proved for the decisions and for these two.
-/
namespace Reconciliation

/-- The timer that a decision arms, so many timers having been armed before. -/
def Decision.timer? (id : ResourceId) (count : Nat) : Decision → Option ArmedTimer
  | .arm _ delay cause => some ⟨id, count, delay, cause⟩
  | _ => none

theorem Scheduler.armed_carryOut_timer? (s : Scheduler) (id : ResourceId) (d : Decision) :
    (s.carryOut id d).armed = (d.timer? id s.armed.length).toList ++ s.armed := by
  rw [armed_carryOut]
  cases d <;> rfl

theorem Decision.of_timer? {id : ResourceId} {count : Nat} {t : ArmedTimer} {d : Decision}
    (h : d.timer? id count = some t) :
    t.id = id ∧ t.token = count ∧ ∃ st, d = .arm st t.delay t.cause := by
  cases d with
  | arm st delay cause =>
    obtain rfl := Option.some.inj h
    exact ⟨rfl, rfl, st, rfl⟩
  | _ => cases h

namespace Activity
variable {c : SchedulerConfig} {a b : Activity} {m : Move}

/-- What a move decides about an identity in its old state. -/
inductive Decides (config : SchedulerConfig) (id : ResourceId) (old : Option IdentityState) :
    Move → Decision → Prop
  | submit (cause : TriggerCause) (terminating : Bool) (d : Decision)
      (hd : Decision.onTrigger old cause terminating = some d) :
      Decides config id old (.submit id cause terminating) d
  | reschedule (delay : Span) (d : Decision) (hd : Decision.onReschedule old delay = some d) :
      Decides config id old (.reschedule id delay) d
  | fire (t : ArmedTimer) (hid : t.id = id) (d : Decision)
      (hd : Decision.onTimer old t = some d) : Decides config id old (.fire t) d
  | begin (st : IdentityState) (hst : old = some st) (hq : st.queued = true)
      (hidle : st.inFlight = false) (request : ReconciliationRequest)
      (hrequest : request = ⟨id, st.causes⟩) (retry : Option RetryInfo) :
      Decides config id old (.begin request retry) (.keep st.begun)
  | finish (st : IdentityState) (hst : old = some st) (hflight : st.inFlight = true)
      (summary : DispatchSummary) :
      Decides config id old (.finish id summary) (Decision.onFinished config st summary)

/-- How a step bears on one identity. -/
inductive Bears (id : ResourceId) (a : Activity) (m : Move) (b : Activity) : Prop
  | aside (hnone : ∀ d, ¬Decides a.scheduler.config id (a.scheduler.stateOf? id) m d)
      (hm : m ≠ .conclude) (hstate : b.scheduler.stateOf? id = a.scheduler.stateOf? id)
      (new : Option ArmedTimer) (harmed : b.scheduler.armed = new.toList ++ a.scheduler.armed)
      (hnew : ∀ t, new = some t → t.id ≠ id ∧ t.token = a.scheduler.armed.length)
  | decided (d : Decision)
      (hd : Decides a.scheduler.config id (a.scheduler.stateOf? id) m d)
      (hstate : b.scheduler.stateOf? id = a.scheduler.stored d)
      (harmed : b.scheduler.armed =
        (d.timer? id a.scheduler.armed.length).toList ++ a.scheduler.armed)
  | promoted (hm : m = .run)
      (hstate : b.scheduler.stateOf? id =
        (a.scheduler.stateOf? id).map IdentityState.promoted)
      (harmed : b.scheduler.armed = a.scheduler.armed)
  | concluded (hm : m = .conclude)
      (hstate : b.scheduler.stateOf? id =
        (a.scheduler.stateOf? id).map IdentityState.cancelTimer)
      (harmed : b.scheduler.armed = a.scheduler.armed)

/-- A decision that is carried out bears on the identity that it is about and on no other. -/
theorem bears_carryOut (s : Scheduler) (hstates : s.states = a.scheduler.states)
    (harmed : s.armed = a.scheduler.armed) (hrunning : s.running = a.scheduler.running)
    (id k : ResourceId) (d : Decision) (hb : b.scheduler = s.carryOut id d)
    (hm : m ≠ .conclude)
    (hself : k = id → Decides a.scheduler.config k (a.scheduler.stateOf? k) m d)
    (hother : k ≠ id → ∀ d, ¬Decides a.scheduler.config k (a.scheduler.stateOf? k) m d) :
    Bears k a m b := by
  have hstate := s.stateOf?_carryOut id k d
  have htimer := s.armed_carryOut_timer? id d
  rw [← hb] at hstate htimer
  rw [harmed] at htimer
  by_cases hk : k = id
  · rw [if_pos hk] at hstate
    refine .decided d (hself hk) (hstate.trans ?_) (hk ▸ htimer)
    cases d <;> simp only [Scheduler.stored, Scheduler.offered, harmed, hrunning]
  · rw [if_neg hk] at hstate
    refine .aside (hother hk) hm (hstate.trans ?_) _ htimer fun t ht => ?_
    · unfold Scheduler.stateOf?
      rw [hstates]
    · obtain ⟨hid, htoken, _⟩ := Decision.of_timer? ht
      exact ⟨hid ▸ Ne.symm hk, htoken⟩

/-- A step that touches neither states nor timers bears on no identity. -/
theorem bears_nothing {id : ResourceId}
    (hnone : ∀ d, ¬Decides a.scheduler.config id (a.scheduler.stateOf? id) m d)
    (hm : m ≠ .conclude) (hstates : b.scheduler.states = a.scheduler.states)
    (harmed : b.scheduler.armed = a.scheduler.armed) : Bears id a m b := by
  refine .aside hnone hm ?_ none harmed nofun
  unfold Scheduler.stateOf?
  rw [hstates]

/-- The same for a decision that may leave everything as it is. -/
theorem bears_carryOut? (id k : ResourceId) (d? : Option Decision)
    (hb : b.scheduler = a.scheduler.carryOut? id d?) (hm : m ≠ .conclude)
    (hself : ∀ d, k = id →
      (Decides a.scheduler.config k (a.scheduler.stateOf? k) m d ↔ d? = some d))
    (hother : k ≠ id → ∀ d, ¬Decides a.scheduler.config k (a.scheduler.stateOf? k) m d) :
    Bears k a m b := by
  cases d? with
  | none =>
    have hsame : b.scheduler = a.scheduler := hb
    refine bears_nothing (fun d hd => ?_) hm (by rw [hsame]) (by rw [hsame])
    by_cases hk : k = id
    · cases (hself d hk).mp hd
    · exact hother hk d hd
  | some d =>
    exact bears_carryOut a.scheduler rfl rfl rfl id k d hb hm
      (fun hk => (hself d hk).mpr rfl) hother

/-- A dispatch that ends belongs to an identity about which something is decided. -/
theorem Step.decides_finish {summary : DispatchSummary} {id : ResourceId}
    (hstep : Step a (.finish id summary) b) (hc : Coherent c a) :
    ∃ d, Decides a.scheduler.config id (a.scheduler.stateOf? id) (.finish id summary) d := by
  cases hstep with
  | finish _ _ hf _ =>
    obtain ⟨st, hst, hflight⟩ := (hc.mem_inFlight_iff id).mp hf
    exact ⟨_, .finish st hst hflight summary⟩

/-- Every step bears on an identity through a decision on it, or through the loop, or not at all. -/
theorem Step.bears (hstep : Step a m b) (hc : Coherent c a) (k : ResourceId) :
    Bears k a m b := by
  cases hstep with
  | submit id cause terminating =>
    refine bears_carryOut? id k _ (a.scheduler.trigger_eq id cause terminating) nofun
      (fun d hk => ?_) fun hk d hd => ?_
    · subst hk
      exact ⟨fun hd => by cases hd; assumption, fun hd => .submit cause terminating d hd⟩
    · cases hd
      exact hk rfl
  | reschedule id delay =>
    refine bears_carryOut? id k _ (a.scheduler.reschedule_eq id delay) nofun
      (fun d hk => ?_) fun hk d hd => ?_
    · subst hk
      exact ⟨fun hd => by cases hd; assumption, fun hd => .reschedule delay d hd⟩
    · cases hd
      exact hk rfl
  | fire t ht =>
    refine bears_carryOut? t.id k _ (a.scheduler.timerFired_eq t) nofun
      (fun d hk => ?_) fun hk d hd => ?_
    · subst hk
      exact ⟨fun hd => by cases hd; assumption, fun hd => .fire t rfl d hd⟩
    · cases hd
      exact hk (Eq.symm ‹_›)
  | run s hs =>
    obtain ⟨_, rfl⟩ := Scheduler.run_eq_ok _ s hs
    refine .promoted rfl (Scheduler.stateOf?_enqueuePending _ rfl k) ?_
    obtain ⟨_, _, heq⟩ := Scheduler.run_frame _ _ hs
    rw [heq]
  | begin id rest request retry s hl hr hb =>
    obtain ⟨st, hst, hq, hidle, rfl, _, rfl⟩ := Scheduler.begin?_eq_some _ id request retry s hb
    have hst : a.scheduler.stateOf? id = some st := hst
    refine bears_carryOut
      { a.scheduler with ready := rest, stats.dispatched := a.scheduler.stats.dispatched + 1 }
      rfl rfl rfl id k (.keep st.begun) rfl nofun (fun hk => ?_) fun hk d hd => ?_
    · subst hk
      exact .begin st hst hq hidle _ rfl retry
    · cases hd with
      | begin _ _ _ _ _ hrequest => exact hk (congrArg ReconciliationRequest.id hrequest).symm
  | finish id summary hf hcr =>
    obtain ⟨st, hst, hflight⟩ := (hc.mem_inFlight_iff id).mp hf
    obtain ⟨stats, heq⟩ := a.scheduler.finished_eq id summary st hst
    refine bears_carryOut { a.scheduler with stats } rfl rfl rfl id k _ heq nofun
      (fun hk => ?_) fun hk d hd => ?_
    · subst hk
      exact .finish st hst hflight summary
    · cases hd
      exact hk rfl
  | conclude hl hf => exact .concluded rfl (Scheduler.stateOf?_ended _ k) rfl
  | refuse | stop | takeWorker | discard | crash | leave =>
    exact bears_nothing (fun d hd => by cases hd) nofun rfl rfl

end Activity
end Reconciliation
