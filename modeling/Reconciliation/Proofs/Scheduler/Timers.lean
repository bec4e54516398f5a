import Mathlib.Data.List.Nodup
import Reconciliation.Proofs.Scheduler.Bearing
import Reconciliation.Proofs.Scheduler.Failing
import Reconciliation.Proofs.Scheduler.Leaving

/-!
Timers that fire late. A timer is never taken back: it fires at any time after it was armed, also
when it was replaced or cancelled, or when the state it was armed in is gone and the identity has
a new one. Tokens are never used twice, and a state names at most the timer that was armed last
for its identity, so a timer acts only as long as nothing has retired it.
-/
namespace Reconciliation

namespace Scheduler
variable {s : Scheduler} {t t' : ArmedTimer} {id : ResourceId}

/-- The token of the timer that an identity waits for. -/
def timerOf (s : Scheduler) (id : ResourceId) : Option Nat := (s.stateOf? id).bind (·.timer)

/-- The identity of a timer waits for it. -/
def Expects (s : Scheduler) (t : ArmedTimer) : Prop := s.timerOf t.id = some t.token

/-- The timer that was armed last for an identity. -/
def latestTimer? (s : Scheduler) (id : ResourceId) : Option ArmedTimer :=
  s.armed.find? fun t => t.id = id

theorem Expects.state (h : s.Expects t) :
    ∃ st, s.stateOf? t.id = some st ∧ st.timer = some t.token := Option.bind_eq_some_iff.mp h

theorem expects_iff_onTimer :
    s.Expects t ↔ ∃ d, Decision.onTimer (s.stateOf? t.id) t = some d := by
  unfold Expects timerOf Decision.onTimer
  cases s.stateOf? t.id with
  | none => simp
  | some st =>
    by_cases htimer : st.timer = some t.token
    · simp [htimer]
    · simp [htimer]

theorem stored_onTimer {d : Decision} (hd : Decision.onTimer (s.stateOf? t.id) t = some d) :
    d.timer? t.id s.armed.length = none ∧
      ∃ st, s.stored d = some st ∧ st.timer = none := by
  obtain ⟨st, _, _, hfires⟩ := Decision.onTimer_fires _ t d hd
  cases hfires with
  | handed st' _ htimer =>
    obtain ⟨queued, heq⟩ := s.stored_enqueue st'
    exact ⟨rfl, _, heq, htimer⟩
  | ignored => exact ⟨rfl, _, rfl, rfl⟩

/-- A timer that acts is used up. -/
theorem timerOf_timerFired (h : s.Expects t) : (s.timerFired t).timerOf t.id = none := by
  obtain ⟨d, hd⟩ := expects_iff_onTimer.mp h
  obtain ⟨_, st, hstored, htimer⟩ := stored_onTimer hd
  rw [timerOf, timerFired_eq, hd, carryOut?, stateOf?_carryOut, if_pos rfl, hstored,
    Option.bind_some, htimer]

/-- A timer that fires does something just if its identity waits for it. -/
theorem timerFired_ne_iff : s.timerFired t ≠ s ↔ s.Expects t := by
  constructor
  · intro hne
    by_contra hstale
    refine hne (Activity.timerFired_of_stale s t fun st hst htimer => hstale ?_)
    rw [Expects, timerOf, hst, Option.bind_some, htimer]
  · intro hexp heq
    have hused := timerOf_timerFired hexp
    rw [heq, hexp] at hused
    cases hused

/-- No two timers have the same token, and an identity waits for no timer but its latest one. -/
structure Timed (s : Scheduler) : Prop where
  tokens : s.armed.map (·.token) = (List.range s.armed.length).reverse
  latest : ∀ id n, s.timerOf id = some n → ∃ t, s.latestTimer? id = some t ∧ t.token = n

theorem Timed.token_lt (h : s.Timed) (ht : t ∈ s.armed) : t.token < s.armed.length := by
  have hmem : t.token ∈ s.armed.map (·.token) := List.mem_map_of_mem ht
  rw [h.tokens, List.mem_reverse, List.mem_range] at hmem
  exact hmem

theorem Timed.eq_of_token (h : s.Timed) (ht : t ∈ s.armed) (ht' : t' ∈ s.armed)
    (htoken : t.token = t'.token) : t = t' := by
  have hnodup : (s.armed.map (·.token)).Nodup := by
    rw [h.tokens, List.nodup_reverse]
    exact List.nodup_range
  exact List.inj_on_of_nodup_map hnodup ht ht' htoken

theorem Timed.latest_of_expects (h : s.Timed) (ht : t ∈ s.armed) (hexp : s.Expects t) :
    s.latestTimer? t.id = some t := by
  obtain ⟨last, hlast, htoken⟩ := h.latest t.id t.token hexp
  rw [hlast, h.eq_of_token (List.mem_of_find?_eq_some hlast) ht htoken]

theorem timed_fresh (c : SchedulerConfig) : ({ config := c } : Scheduler).Timed where
  tokens := rfl
  latest := nofun

end Scheduler

namespace Activity
variable {c : SchedulerConfig} {a b x : Activity} {m : Move} {ms : List Move}
  {id : ResourceId} {t t' : ArmedTimer}

/-- The moves that cancel the timer of an identity: its object is gone, it is handed out, its
dispatch has succeeded, or the loop has come to its end. -/
inductive Cancels (id : ResourceId) (a : Activity) : Move → Prop
  | deleted (terminating : Bool) : Cancels id a (.submit id .deleted terminating)
  | offered (cause : TriggerCause) (terminating : Bool)
      (hidle : (a.scheduler.stateOf id).inFlight = false)
      (hunqueued : (a.scheduler.stateOf id).queued = false)
      (htaken : (a.scheduler.stateOf id).event = .released → terminating = false) :
      Cancels id a (.submit id cause terminating)
  | succeeded (summary : DispatchSummary) (hn : summary.error = none) :
      Cancels id a (.finish id summary)
  | concluded : Cancels id a .conclude

/-- The steps that end the time of a timer. -/
inductive Retires (t : ArmedTimer) (a : Activity) (m : Move) (b : Activity) : Prop
  | fired (hm : m = .fire t)
  | replaced (t' : ArmedTimer) (harmed : b.scheduler.armed = t' :: a.scheduler.armed)
      (hid : t'.id = t.id)
  | dropped (hgone : b.scheduler.stateOf? t.id = none)
  | cancelled (h : Cancels t.id a m)

/-- What a step does to the timer of an identity. -/
inductive TimerChange (id : ResourceId) (a : Activity) (m : Move) (b : Activity) : Prop
  | kept (htimer : b.scheduler.timerOf id = a.scheduler.timerOf id)
      (hlatest : b.scheduler.latestTimer? id = a.scheduler.latestTimer? id)
      (hspared : ∀ t, t.id = id → a.scheduler.Expects t → ¬Retires t a m b)
  | cleared (htimer : b.scheduler.timerOf id = none)
      (hretired : ∀ t ∈ a.scheduler.armed, t.id = id → a.scheduler.Expects t → Retires t a m b)
  | replaced (t : ArmedTimer) (hid : t.id = id) (htoken : t.token = a.scheduler.armed.length)
      (harmed : b.scheduler.armed = t :: a.scheduler.armed)
      (htimer : b.scheduler.timerOf id = some t.token)

theorem timerChange_of_kept {d : Decision} {st : IdentityState}
    (hstored : a.scheduler.stored d = some st) (hd : d.timer? id a.scheduler.armed.length = none)
    (hstate : b.scheduler.stateOf? id = a.scheduler.stored d)
    (harmed : b.scheduler.armed =
      (d.timer? id a.scheduler.armed.length).toList ++ a.scheduler.armed)
    (htimer : st.timer = a.scheduler.timerOf id) (hfire : ∀ t, m ≠ .fire t)
    (hcancel : a.scheduler.timerOf id ≠ none → ¬Cancels id a m) : TimerChange id a m b := by
  have hsame : b.scheduler.armed = a.scheduler.armed := by
    rw [harmed, hd, Option.toList_none, List.nil_append]
  refine .kept ?_ ?_ ?_
  · rw [← htimer, Scheduler.timerOf, hstate, hstored, Option.bind_some]
  · rw [Scheduler.latestTimer?, hsame, Scheduler.latestTimer?]
  · rintro t rfl hexp (hm | ⟨t', hnew, _⟩ | hgone | h)
    · exact hfire t hm
    · rw [hsame] at hnew
      exact List.cons_ne_self t' _ hnew.symm
    · rw [hstate, hstored] at hgone
      cases hgone
    · exact hcancel (by rw [hexp]; nofun) h

theorem timerChange_of_cleared {d : Decision}
    (hstate : b.scheduler.stateOf? id = a.scheduler.stored d)
    (htimer : ∀ st, a.scheduler.stored d = some st → st.timer = none)
    (hretired : ∀ t ∈ a.scheduler.armed, t.id = id → a.scheduler.Expects t → Retires t a m b) :
    TimerChange id a m b := by
  refine .cleared ?_ hretired
  rw [Scheduler.timerOf, hstate]
  cases hst : a.scheduler.stored d with
  | none => rfl
  | some st => exact htimer st hst

theorem timerChange_of_armed {st : IdentityState} {delay : Span} {cause : TriggerCause}
    (hstate : b.scheduler.stateOf? id = a.scheduler.stored (.arm st delay cause))
    (harmed : b.scheduler.armed =
      ((Decision.arm st delay cause).timer? id a.scheduler.armed.length).toList ++
        a.scheduler.armed) : TimerChange id a m b :=
  .replaced ⟨id, a.scheduler.armed.length, delay, cause⟩ rfl rfl harmed
    (by rw [Scheduler.timerOf, hstate]; rfl)

/-- A trigger is ignored if it reports the deletion of an unknown object, or comes from a
terminating object whose finalizer is gone. -/
theorem onTrigger_eq_none_iff (old : Option IdentityState) (cause : TriggerCause)
    (terminating : Bool) :
    Decision.onTrigger old cause terminating = none ↔
      if cause = .deleted then old = none
      else (old.getD {}).event = .released ∧ terminating = true := by
  unfold Decision.onTrigger
  split
  · exact Option.map_eq_none_iff
  · dsimp only
    split
    · rename_i hreleased
      cases terminating <;> simp [hreleased]
    · rename_i hreleased
      simp [hreleased]

/-- What cancels a timer that is waited for is decided about its identity. -/
theorem Cancels.decides (hstep : Step a m b) (hc : Coherent c a) (h : Cancels id a m)
    (hm : m ≠ .conclude) (st : IdentityState) (hst : a.scheduler.stateOf? id = some st) :
    ∃ d, Decides a.scheduler.config id (a.scheduler.stateOf? id) m d := by
  -- only a trigger of a terminating object is ignored, and it cancels nothing
  have htrigger : ∀ cause terminating,
      ((a.scheduler.stateOf id).event = .released → terminating = false) ∨ cause = .deleted →
      ∃ d, Decides a.scheduler.config id (a.scheduler.stateOf? id)
        (.submit id cause terminating) d := by
    intro cause terminating htaken
    cases hd : Decision.onTrigger (a.scheduler.stateOf? id) cause terminating with
    | some d => exact ⟨d, .submit cause terminating d hd⟩
    | none =>
      rw [onTrigger_eq_none_iff] at hd
      split at hd
      · cases hst.symm.trans hd
      · rename_i hcause
        cases ((htaken.resolve_right hcause) hd.1).symm.trans hd.2
  cases h with
  | deleted terminating => exact htrigger .deleted terminating (Or.inr rfl)
  | offered cause terminating _ _ htaken => exact htrigger cause terminating (Or.inl htaken)
  | succeeded summary hn => exact hstep.decides_finish hc
  | concluded => exact absurd rfl hm

/-- The end of a dispatch leaves the timer of its identity after a failure, cancels it after a
success, or puts another one in its place. -/
theorem timerChange_of_finish {config : SchedulerConfig} {st : IdentityState}
    {summary : DispatchSummary} {d : Decision} (hd : Decision.Closes config st summary d)
    (hst : a.scheduler.stateOf? id = some st)
    (hstate : b.scheduler.stateOf? id = a.scheduler.stored d)
    (harmed : b.scheduler.armed =
      (d.timer? id a.scheduler.armed.length).toList ++ a.scheduler.armed) :
    TimerChange id a (.finish id summary) b := by
  -- an identity that is left to itself or handed out again
  have hrest : ∀ st', a.scheduler.stored d = some st' →
      d.timer? id a.scheduler.armed.length = none →
      st'.timer = (summary.error.bind fun _ => st.timer) →
      TimerChange id a (.finish id summary) b := by
    intro st' hstored hnone htimer
    cases hn : summary.error with
    | none =>
      rw [hn, Option.bind_none] at htimer
      refine timerChange_of_cleared hstate (fun st'' hst'' => ?_)
        fun t _ hid _ => .cancelled (hid ▸ .succeeded summary hn)
      obtain rfl := Option.some.inj (hstored.symm.trans hst'')
      exact htimer
    | some e =>
      rw [hn, Option.bind_some] at htimer
      refine timerChange_of_kept hstored hnone hstate harmed ?_ nofun fun _ hcancel => ?_
      · rw [htimer, Scheduler.timerOf, hst, Option.bind_some]
      · cases hcancel with
        | succeeded _ hn' => cases hn.symm.trans hn'
  cases hd with
  | dropped =>
    exact timerChange_of_cleared hstate (fun _ h => by cases h)
      fun t _ hid _ => .dropped (hid ▸ hstate)
  | released st' he ht hf hn =>
    exact hrest st' rfl rfl (by rw [hn, Option.bind_none, ht])
  | again st' he ht =>
    obtain ⟨queued, heq⟩ := a.scheduler.stored_enqueue st'
    exact hrest _ heq rfl ht
  | retrying st' delay hw => exact timerChange_of_armed hstate harmed
  | rescheduled st' delay he => exact timerChange_of_armed hstate harmed
  | resting st' he ht hf hend => exact hrest st' rfl rfl ht

/-- A trigger cancels the timer of an identity that it drops, dooms or hands out. -/
theorem timerChange_of_submit {cause : TriggerCause} {terminating : Bool} {d : Decision}
    (hd : Decision.onTrigger (a.scheduler.stateOf? id) cause terminating = some d)
    (hc : Coherent c a) (hstate : b.scheduler.stateOf? id = a.scheduler.stored d)
    (harmed : b.scheduler.armed =
      (d.timer? id a.scheduler.armed.length).toList ++ a.scheduler.armed) :
    TimerChange id a (.submit id cause terminating) b := by
  cases Decision.onTrigger_triggered _ (hc.orderly.sound _ id) cause terminating d hd with
  | dropped hcause st hst hidle =>
    exact timerChange_of_cleared hstate (fun _ h => by cases h)
      fun t _ hid _ => .dropped (hid ▸ hstate)
  | doomed hcause st hst hflight =>
    subst hcause
    refine timerChange_of_cleared hstate (fun st' hst' => ?_)
      fun t _ hid _ => .cancelled (hid ▸ .deleted terminating)
    obtain rfl := Option.some.inj hst'
    rfl
  | offered hcause hidle hunqueued st he ht hf =>
    refine timerChange_of_cleared hstate (fun st' hst' => ?_) fun t _ hid _ => ?_
    · obtain ⟨queued, rfl⟩ := Scheduler.of_stored_enqueue hst'
      exact ht
    · subst hid
      refine .cancelled (.offered cause terminating hidle hunqueued fun hreleased => ?_)
      rw [← Bool.not_eq_true]
      intro hterminating
      have hnone : Decision.onTrigger (a.scheduler.stateOf? t.id) cause terminating = none := by
        rw [onTrigger_eq_none_iff, if_neg hcause]
        exact ⟨hreleased, hterminating⟩
      cases hd.symm.trans hnone
  | noted hcause hbusy st hs he ht hf =>
    refine timerChange_of_kept rfl rfl hstate harmed (ht.trans ?_) nofun fun _ hcancel => ?_
    · unfold Scheduler.timerOf
      cases a.scheduler.stateOf? id <;> rfl
    · cases hcancel with
      | deleted => exact hcause rfl
      | offered _ _ hidle hunqueued =>
        rcases hbusy with hbusy | hbusy
        · cases hidle.symm.trans hbusy
        · cases hunqueued.symm.trans hbusy

/-- A timer that acts is the one that its identity waits for, and is retired by that. -/
theorem timerChange_of_fire {d : Decision}
    (hd : Decision.onTimer (a.scheduler.stateOf? t.id) t = some d)
    (htimed : a.scheduler.Timed) (ht : t ∈ a.scheduler.armed)
    (hstate : b.scheduler.stateOf? t.id = a.scheduler.stored d) :
    TimerChange t.id a (.fire t) b := by
  obtain ⟨_, st, hstored, htimer⟩ := Scheduler.stored_onTimer hd
  have hexp := Scheduler.expects_iff_onTimer.mpr ⟨d, hd⟩
  refine timerChange_of_cleared hstate (fun st' hst' => ?_) fun t' ht' hid hexp' => .fired ?_
  · obtain rfl := Option.some.inj (hstored.symm.trans hst')
    exact htimer
  · have htoken : t'.token = t.token :=
      Option.some.inj (hexp'.symm.trans ((congrArg _ hid).trans hexp))
    rw [htimed.eq_of_token ht' ht htoken]

/-- A step that does not bear on an identity retires none of its timers. -/
theorem Step.timerChange_of_aside (hstep : Step a m b) (hc : Coherent c a)
    (hnone : ∀ d, ¬Decides a.scheduler.config id (a.scheduler.stateOf? id) m d)
    (hm : m ≠ .conclude) (hstate : b.scheduler.stateOf? id = a.scheduler.stateOf? id)
    (new : Option ArmedTimer) (harmed : b.scheduler.armed = new.toList ++ a.scheduler.armed)
    (hnew : ∀ t, new = some t → t.id ≠ id) : TimerChange id a m b := by
  refine .kept (by rw [Scheduler.timerOf, hstate, Scheduler.timerOf]) ?_ ?_
  · unfold Scheduler.latestTimer?
    rw [harmed]
    cases new with
    | none => rfl
    | some t => exact List.find?_cons_of_neg (by simpa using hnew t rfl)
  · intro t hid hexp hretires
    subst hid
    obtain ⟨st, hst, _⟩ := hexp.state
    cases hretires with
    | fired hm =>
      subst hm
      obtain ⟨d, hd⟩ := Scheduler.expects_iff_onTimer.mp hexp
      exact hnone d (.fire t rfl d hd)
    | replaced t' hcons hid =>
      rw [harmed] at hcons
      cases new with
      | none => exact List.cons_ne_self t' _ hcons.symm
      | some t'' => exact hnew t'' rfl ((List.cons.inj hcons).1 ▸ hid)
    | dropped hgone => cases (hstate.symm.trans hgone).symm.trans hst
    | cancelled hcancel =>
      obtain ⟨d, hd⟩ := hcancel.decides hstep hc hm st hst
      exact hnone d hd

/-- The start of the loop leaves all timers alone. -/
theorem timerChange_of_promoted
    (hstate : b.scheduler.stateOf? id = (a.scheduler.stateOf? id).map IdentityState.promoted)
    (harmed : b.scheduler.armed = a.scheduler.armed) : TimerChange id a .run b := by
  have htimer : b.scheduler.timerOf id = a.scheduler.timerOf id := by
    unfold Scheduler.timerOf
    rw [hstate]
    cases a.scheduler.stateOf? id with
    | none => rfl
    | some st =>
      simp only [Option.map_some, Option.bind_some, IdentityState.promoted]
      split <;> rfl
  refine .kept htimer (by rw [Scheduler.latestTimer?, harmed, Scheduler.latestTimer?]) ?_
  intro t hid hexp hretires
  subst hid
  cases hretires with
  | fired hm => cases hm
  | replaced t' hcons => exact List.cons_ne_self t' _ (hcons.symm.trans harmed)
  | dropped hgone =>
    rw [Scheduler.Expects, ← htimer, Scheduler.timerOf, hgone] at hexp
    cases hexp
  | cancelled hcancel => cases hcancel

/-- What a step makes of the timer that an identity waits for. -/
theorem Step.timerChange (hstep : Step a m b) (hc : Coherent c a) (htimed : a.scheduler.Timed)
    (id : ResourceId) : TimerChange id a m b := by
  cases hstep.bears hc id with
  | aside hnone hm hstate new harmed hnew =>
    exact hstep.timerChange_of_aside hc hnone hm hstate new harmed fun t ht => (hnew t ht).1
  | decided d hd hstate harmed =>
    cases hd with
    | submit cause terminating d hd => exact timerChange_of_submit hd hc hstate harmed
    | reschedule delay d hd =>
      obtain ⟨_, rfl⟩ := Decision.onReschedule_eq_some _ delay d hd
      exact timerChange_of_armed hstate harmed
    | fire t hid d hd =>
      subst hid
      cases hstep with
      | fire _ ht => exact timerChange_of_fire hd htimed ht hstate
    | begin st hst hq hidle request hrequest retry =>
      refine timerChange_of_kept rfl rfl hstate harmed ?_ nofun fun _ hcancel => nomatch hcancel
      rw [Scheduler.timerOf, hst]
      rfl
    | finish st hst hflight summary =>
      exact timerChange_of_finish
        (Decision.onFinished_closes _ st summary (hc.orderly.sound _ id st hst) hflight)
        hst hstate harmed
  | promoted hm hstate harmed =>
    subst hm
    exact timerChange_of_promoted hstate harmed
  | concluded hm hstate harmed =>
    subst hm
    refine .cleared ?_ fun t _ _ _ => .cancelled .concluded
    rw [Scheduler.timerOf, hstate]
    cases a.scheduler.stateOf? id <;> rfl

theorem Step.armed_eq (hstep : Step a m b) (hc : Coherent c a) :
    ∃ new : Option ArmedTimer, b.scheduler.armed = new.toList ++ a.scheduler.armed ∧
      ∀ t, new = some t → t.token = a.scheduler.armed.length := by
  cases hstep.bears hc default with
  | aside _ _ _ new harmed hnew => exact ⟨new, harmed, fun t ht => (hnew t ht).2⟩
  | decided d _ _ harmed => exact ⟨_, harmed, fun t ht => (Decision.of_timer? ht).2.1⟩
  | promoted _ _ harmed => exact ⟨none, harmed, nofun⟩
  | concluded _ _ harmed => exact ⟨none, harmed, nofun⟩

/-- Tokens stay distinct, and states go on naming only timers that were armed. -/
theorem Step.timed (hstep : Step a m b) (hc : Coherent c a) (htimed : a.scheduler.Timed) :
    b.scheduler.Timed where
  tokens := by
    obtain ⟨new, harmed, hnew⟩ := hstep.armed_eq hc
    rw [harmed]
    cases new with
    | none => exact htimed.tokens
    | some t =>
      rw [Option.toList_some, List.singleton_append, List.map_cons, htimed.tokens, hnew t rfl,
        List.length_cons, List.range_succ, List.reverse_append, List.reverse_singleton,
        List.singleton_append]
  latest id n hn := by
    cases hstep.timerChange hc htimed id with
    | kept htimer hlatest _ =>
      rw [hlatest]
      exact htimed.latest id n (htimer ▸ hn)
    | cleared htimer _ => cases htimer.symm.trans hn
    | replaced t hid htoken harmed htimer =>
      refine ⟨t, ?_, Option.some.inj (htimer.symm.trans hn)⟩
      rw [Scheduler.latestTimer?, harmed, List.find?_cons_of_pos (by simpa using hid)]

theorem Reachable.timed (h : Reachable c a) : a.scheduler.Timed := by
  have hboth := h.preserves (P := fun a => Coherent c a ∧ a.scheduler.Timed)
    (fun _ _ _ hstep h => ⟨hstep.coherent h.1, hstep.timed h.1 h.2⟩)
    ⟨coherent_fresh c, Scheduler.timed_fresh c⟩
  exact hboth.2

/-- A timer is waited for as long as no step retires it, and never again. -/
theorem Step.expects_iff (hstep : Step a m b) (hc : Coherent c a) (htimed : a.scheduler.Timed)
    (ht : t ∈ a.scheduler.armed) :
    b.scheduler.Expects t ↔ a.scheduler.Expects t ∧ ¬Retires t a m b := by
  cases hstep.timerChange hc htimed t.id with
  | kept htimer _ hspared =>
    rw [Scheduler.Expects, htimer]
    exact ⟨fun hexp => ⟨hexp, hspared t rfl hexp⟩, And.left⟩
  | cleared htimer hretired =>
    rw [Scheduler.Expects, htimer]
    exact ⟨nofun, fun ⟨hexp, hspared⟩ => absurd (hretired t ht rfl hexp) hspared⟩
  | replaced t' hid htoken harmed htimer =>
    rw [Scheduler.Expects, htimer]
    refine ⟨fun htokens => ?_, fun ⟨_, hspared⟩ => absurd (.replaced t' harmed hid) hspared⟩
    have hlt := htimed.token_lt ht
    have heq := Option.some.inj htokens
    omega

/-- An identity waits for a timer once it is armed. -/
theorem Step.expects_of_new (hstep : Step a m b) (hc : Coherent c a)
    (hnew : t ∉ a.scheduler.armed) (ht : t ∈ b.scheduler.armed) : b.scheduler.Expects t := by
  cases hstep.bears hc t.id with
  | aside _ _ _ new harmed hother =>
    rw [harmed, List.mem_append, Option.mem_toList] at ht
    exact absurd rfl (hother t (ht.resolve_right hnew)).1
  | decided d _ hstate harmed =>
    rw [harmed, List.mem_append, Option.mem_toList] at ht
    obtain ⟨_, htoken, st, rfl⟩ := Decision.of_timer? (ht.resolve_right hnew)
    rw [Scheduler.Expects, Scheduler.timerOf, hstate, htoken]
    rfl
  | promoted _ _ harmed => exact absurd (harmed ▸ ht) hnew
  | concluded _ _ harmed => exact absurd (harmed ▸ ht) hnew

/-- A run in which no step retires a timer. -/
inductive Spared (t : ArmedTimer) : Activity → List Move → Activity → Prop
  | nil (a : Activity) : Spared t a [] a
  | cons {a b x : Activity} {m : Move} {ms : List Move} (hstep : Step a m b)
      (hspared : ¬Retires t a m b) (hrest : Spared t b ms x) : Spared t a (m :: ms) x

theorem Trace.armed_mono (htrace : Trace a ms b) (h : Reachable c a)
    (ht : t ∈ a.scheduler.armed) : t ∈ b.scheduler.armed := by
  induction htrace with
  | nil => exact ht
  | cons hstep _ ih =>
    obtain ⟨new, harmed, _⟩ := hstep.armed_eq h.coherent
    exact ih (h.extend (.cons hstep (.nil _))) (harmed ▸ List.mem_append_right _ ht)

theorem Trace.spared_of_expects (htrace : Trace a ms b) (h : Reachable c a)
    (ht : t ∈ a.scheduler.armed) (hexp : b.scheduler.Expects t) :
    a.scheduler.Expects t ∧ Spared t a ms b := by
  induction htrace with
  | nil a => exact ⟨hexp, .nil a⟩
  | cons hstep _ ih =>
    have hstep' := Trace.cons hstep (.nil _)
    obtain ⟨hnext, hrest⟩ := ih (h.extend hstep') (hstep'.armed_mono h ht) hexp
    obtain ⟨hfirst, hspared⟩ := (hstep.expects_iff h.coherent h.timed ht).mp hnext
    exact ⟨hfirst, .cons hstep hspared hrest⟩

theorem Spared.expects (hspared : Spared t a ms b) (h : Reachable c a)
    (ht : t ∈ a.scheduler.armed) (hexp : a.scheduler.Expects t) : b.scheduler.Expects t := by
  induction hspared with
  | nil => exact hexp
  | cons hstep hspared _ ih =>
    have hstep' := Trace.cons hstep (.nil _)
    exact ih (h.extend hstep') (hstep'.armed_mono h ht)
      ((hstep.expects_iff h.coherent h.timed ht).mpr ⟨hexp, hspared⟩)

/-- A timer may fire at any time after the step that armed it. It changes something just if no step
since has retired it: it did not fire, no other timer was armed for its identity, it was not
cancelled, and the state of the identity was not dropped. In that case it is the timer armed last
for the identity and the only one that would change anything. And it acts once: after it has fired
the identity waits for no timer, and to fire it again at any later time changes nothing. -/
theorem Reachable.timers_inert (h : Reachable c a) (hstep : Step a m b)
    (hnew : t ∉ a.scheduler.armed) (ht : t ∈ b.scheduler.armed) (htrace : Trace b ms x) :
    (x.scheduler.timerFired t ≠ x.scheduler ↔ Spared t b ms x) ∧
    (x.scheduler.timerFired t ≠ x.scheduler →
      x.scheduler.latestTimer? t.id = some t ∧
      (∀ t' ∈ x.scheduler.armed, t'.id = t.id → x.scheduler.timerFired t' ≠ x.scheduler →
        t' = t) ∧
      ∀ y ms' z, Step x (.fire t) y → Trace y ms' z →
        y.scheduler.timerOf t.id = none ∧ z.scheduler.timerFired t = z.scheduler) := by
  have hb := h.extend (.cons hstep (.nil b))
  have hx := hb.extend htrace
  have hmem := htrace.armed_mono hb ht
  have hexp := hstep.expects_of_new h.coherent hnew ht
  simp only [Scheduler.timerFired_ne_iff]
  refine ⟨⟨fun hlate => (htrace.spared_of_expects hb ht hlate).2,
    fun hspared => hspared.expects hb ht hexp⟩, fun hlate => ⟨?_, fun t' ht' hid hlate' => ?_,
    fun y ms' z hfire htrace' => ⟨?_, ?_⟩⟩⟩
  · exact hx.timed.latest_of_expects hmem hlate
  · have htoken : t'.token = t.token :=
      Option.some.inj (hlate'.symm.trans ((congrArg _ hid).trans hlate))
    exact hx.timed.eq_of_token ht' hmem htoken
  · cases hfire
    exact Scheduler.timerOf_timerFired hlate
  · by_contra hne
    have hfired := Trace.cons hfire htrace'
    cases (hfired.spared_of_expects hx hmem (Scheduler.timerFired_ne_iff.mp hne)).2 with
    | cons _ hspared => exact hspared (.fired rfl)

/-- An identity is armed, forgotten and armed again. Its first timer does nothing any more, the
second one acts once. -/
theorem timers_inert_recreated :
    ∃ a b x y first second, Reachable {} a ∧ Step a (.reschedule ⟨"App", none, "app"⟩ ⟨5⟩) b ∧
      first ∈ b.scheduler.armed ∧
      Trace b [.submit ⟨"App", none, "app"⟩ .deleted false,
        .reschedule ⟨"App", none, "app"⟩ ⟨1⟩] x ∧
      Step x (.fire second) y ∧
      x.scheduler.timerFired first = x.scheduler ∧
      x.scheduler.timerFired second ≠ x.scheduler ∧
      x.scheduler.latestTimer? ⟨"App", none, "app"⟩ = some second ∧
      y.scheduler.timerFired second = y.scheduler := by
  let id : ResourceId := ⟨"App", none, "app"⟩
  let s := (fresh {}).scheduler.reschedule id ⟨5⟩
  let b : Activity := { fresh {} with scheduler := s }
  let forgotten : Activity := { b with scheduler := s.trigger id .deleted false }
  let x : Activity := { b with scheduler := forgotten.scheduler.reschedule id ⟨1⟩ }
  have hreachable : Reachable {} (fresh {}) := ⟨[], .nil _⟩
  have harm : Step (fresh {}) (.reschedule id ⟨5⟩) b := .reschedule _ id ⟨5⟩
  have hforget : Step b (.submit id .deleted false) forgotten := .submit _ id .deleted false
  have hagain : Step forgotten (.reschedule id ⟨1⟩) x := .reschedule _ id ⟨1⟩
  have htrace := Trace.cons hforget (.cons hagain (.nil x))
  have hforgotten := hreachable.extend (.cons harm (.cons hforget (.nil _)))
  have hfire := Step.fire x ⟨id, 1, ⟨1⟩, .rescheduled⟩ (by decide)
  have hfirst := hreachable.timers_inert (t := ⟨id, 0, ⟨5⟩, .rescheduled⟩) harm
    List.not_mem_nil (by decide) htrace
  have hsecond := hforgotten.timers_inert (t := ⟨id, 1, ⟨1⟩, .rescheduled⟩) hagain
    (by decide) (by decide) (.nil x)
  have hacts := hsecond.1.mpr (.nil x)
  obtain ⟨hlatest, _, honce⟩ := hsecond.2 hacts
  refine ⟨fresh {}, b, x, _, _, _, hreachable, harm, (by decide : ⟨id, 0, ⟨5⟩, .rescheduled⟩ ∈ _),
    htrace, hfire, ?_, hacts, hlatest, (honce _ _ _ hfire (.nil _)).2⟩
  by_contra hne
  cases (hfirst.2 hne).1.symm.trans hlatest

end Activity
end Reconciliation
