import Reconciliation.Proofs.Scheduler.Pending
import Reconciliation.Proofs.Scheduler.Pursuit

/-!
Timers that a trigger finds armed. A trigger cancels the timer of an identity that it hands out,
and leaves the timer of one that is queued or in flight. Of all that arms timers only a call to
reschedule arms one for an identity whose next dispatch is under way or waits, so a timer that
outlives a trigger goes back to such a call.
-/
namespace Reconciliation

namespace IdentityState

/-- A dispatch of the identity is in flight or stands in the ready queue. -/
def isBusy (st : IdentityState) : Bool := st.inFlight || st.queued

/-- A dispatch of the identity is in flight or queued, or an event waits for one. -/
def Engaged (st : IdentityState) : Prop := st.isBusy = true ∨ st.event = .pending

theorem isBusy_iff (st : IdentityState) :
    st.isBusy = true ↔ st.inFlight = true ∨ st.queued = true := by
  simp [isBusy]

theorem isBusy_eq_false_iff (st : IdentityState) :
    st.isBusy = false ↔ st.inFlight = false ∧ st.queued = false := by
  simp [isBusy]

theorem engaged_of_flight {st : IdentityState} (h : st.inFlight = true) : st.Engaged :=
  Or.inl (st.isBusy_iff.mpr (Or.inl h))

theorem engaged_of_queued {st : IdentityState} (h : st.queued = true) : st.Engaged :=
  Or.inl (st.isBusy_iff.mpr (Or.inr h))

/-- A quiet identity is engaged only by a dispatch in flight. -/
theorem Sound.not_engaged {st : IdentityState} (h : st.Sound) (he : st.event = .quiet)
    (hidle : st.inFlight = false) : ¬st.Engaged := by
  rintro (hbusy | hp)
  · rcases st.isBusy_iff.mp hbusy with hflight | hqueued
    · cases hidle.symm.trans hflight
    · cases he.symm.trans (h.queued_pending hqueued)
  · cases he.symm.trans hp

theorem engaged_of_promoted {st : IdentityState} (h : st.promoted.Engaged) : st.Engaged := by
  unfold promoted at h
  split at h
  · rename_i hdue
    exact Or.inr (st.isDispatchable_iff.mp hdue).1
  · exact h

end IdentityState

/-- The end of a dispatch leaves an engaged identity no timer but the one that it had. -/
theorem Decision.Closes.timer_of_engaged {config : SchedulerConfig} {st st' : IdentityState}
    {summary : DispatchSummary} {d : Decision} (h : Closes config st summary d) (s : Scheduler)
    (hst' : s.stored d = some st') (hsound : st'.Sound) (hidle : st'.inFlight = false)
    (hengaged : st'.Engaged) {n : Nat} (hn : st'.timer = some n) : st.timer = some n := by
  cases h with
  | dropped => cases hst'
  | released _ _ ht =>
    obtain rfl := Option.some.inj hst'
    cases ht.symm.trans hn
  | again st'' _ ht =>
    obtain ⟨queued, rfl⟩ := Scheduler.of_stored_enqueue hst'
    obtain ⟨_, _, hkept⟩ := Option.bind_eq_some_iff.mp (ht.symm.trans hn)
    exact hkept
  | retrying _ _ hw =>
    obtain rfl := Option.some.inj hst'
    exact absurd hengaged (hsound.not_engaged hw.quiet hidle)
  | rescheduled _ _ he =>
    obtain rfl := Option.some.inj hst'
    exact absurd hengaged (hsound.not_engaged he hidle)
  | resting _ he =>
    obtain rfl := Option.some.inj hst'
    exact absurd hengaged (hsound.not_engaged he hidle)

theorem Scheduler.timer_stateOf (s : Scheduler) (id : ResourceId) :
    (s.stateOf id).timer = s.timerOf id := by
  unfold stateOf timerOf
  cases s.stateOf? id <;> rfl

namespace Activity
variable {c config : SchedulerConfig} {a b : Activity} {m : Move} {ms : List Move}
  {id : ResourceId} {st : IdentityState} {n : Nat}

/-- The timer was armed by a call to reschedule while the identity was engaged. -/
inductive ArmedEngaged (c : SchedulerConfig) (id : ResourceId) (n : Nat) (ms : List Move)
    (a : Activity) : Prop
  | intro (before after : List Move) (delay : Span) (x y : Activity)
      (hms : ms = before ++ .reschedule id delay :: after) (hbefore : Trace (fresh c) before x)
      (hengaged : (x.scheduler.stateOf id).Engaged) (hstep : Step x (.reschedule id delay) y)
      (htimer : y.scheduler.timerOf id = some n) (hafter : Trace y after a)

theorem ArmedEngaged.concat (h : ArmedEngaged c id n ms a) (hstep : Step a m b) :
    ArmedEngaged c id n (ms ++ [m]) b := by
  obtain ⟨before, after, delay, x, y, rfl, hbefore, hengaged, hcall, htimer, hafter⟩ := h
  exact .intro before (after ++ [m]) delay x y (List.append_assoc before _ [m]) hbefore hengaged
    hcall htimer (hafter.append (.cons hstep (.nil b)))

/-- A decision that leaves an engaged identity with a timer reschedules it, or it found the
identity engaged and with the same timer. -/
theorem Decides.engaged_before {old : Option IdentityState} {d : Decision}
    (hd : Decides config id old m d) (hold : ∀ o, old = some o → o.Sound) (s : Scheduler)
    (hst : s.stored d = some st) (hsound : st.Sound) (hn : st.timer = some n)
    (hengaged : st.Engaged) :
    (old.getD {}).Engaged ∧ ((old.getD {}).timer = some n ∨ ∃ delay, m = .reschedule id delay) := by
  cases hd with
  | submit cause terminating d hd =>
    cases Decision.onTrigger_triggered old hold cause terminating d hd with
    | dropped => cases hst
    | doomed =>
      obtain rfl := Option.some.inj hst
      cases hn
    | offered _ _ _ st' _ ht =>
      obtain ⟨queued, rfl⟩ := Scheduler.of_stored_enqueue hst
      cases ht.symm.trans hn
    | noted _ hbusy st' _ _ ht =>
      obtain rfl := Option.some.inj hst
      exact ⟨Or.inl ((IdentityState.isBusy_iff _).mpr hbusy), Or.inl (ht.symm.trans hn)⟩
  | reschedule delay d hd =>
    obtain ⟨_, rfl⟩ := Decision.onReschedule_eq_some old delay d hd
    obtain rfl := Option.some.inj hst
    exact ⟨hengaged, Or.inr ⟨delay, rfl⟩⟩
  | fire t hid d hd =>
    obtain ⟨_, rfl, _, hfires⟩ := Decision.onTimer_fires old t d hd
    cases hfires with
    | handed st' _ ht =>
      obtain ⟨queued, rfl⟩ := Scheduler.of_stored_enqueue hst
      cases ht.symm.trans hn
    | ignored =>
      obtain rfl := Option.some.inj hst
      cases hn
  | begin o ho hq =>
    subst ho
    obtain rfl := Option.some.inj hst
    exact ⟨IdentityState.engaged_of_queued hq, Or.inl hn⟩
  | finish o ho hflight summary =>
    subst ho
    have hidle : st.inFlight = false := by
      have hends := Decision.onFinished_ends config o summary (hold o rfl) hflight
      rw [← hends.inFlight_eq, ← s.inFlight_stored, hst, Option.any_some]
    have hcloses := Decision.onFinished_closes config o summary (hold o rfl) hflight
    exact ⟨IdentityState.engaged_of_flight hflight,
      Or.inl (hcloses.timer_of_engaged s hst hsound hidle hengaged hn)⟩

/-- A step that leaves an engaged identity with a timer is a call to reschedule, or it found the
identity engaged and with the same timer. -/
theorem Step.engaged_before (hstep : Step a m b) (hc : Coherent c a)
    (htimer : b.scheduler.timerOf id = some n) (hengaged : (b.scheduler.stateOf id).Engaged) :
    (a.scheduler.stateOf id).Engaged ∧
      (a.scheduler.timerOf id = some n ∨ ∃ delay, m = .reschedule id delay) := by
  obtain ⟨st, hst, hn⟩ := Option.bind_eq_some_iff.mp htimer
  rw [Scheduler.stateOf, hst, Option.getD_some] at hengaged
  rw [← Scheduler.timer_stateOf]
  unfold Scheduler.stateOf
  cases hstep.bears hc id with
  | aside _ _ hstate =>
    rw [← hstate, hst]
    exact ⟨hengaged, Or.inl hn⟩
  | decided d hd hstate =>
    exact hd.engaged_before (hc.orderly.sound _ id) a.scheduler (hstate.symm.trans hst)
      ((hstep.coherent hc).orderly.sound _ id st hst) hn hengaged
  | promoted _ hstate =>
    obtain ⟨o, ho, rfl⟩ := Option.map_eq_some_iff.mp (hstate.symm.trans hst)
    rw [ho, ← hn, o.timer_promoted]
    exact ⟨IdentityState.engaged_of_promoted hengaged, Or.inl rfl⟩
  | concluded _ hstate =>
    obtain ⟨o, _, rfl⟩ := Option.map_eq_some_iff.mp (hstate.symm.trans hst)
    cases hn

/-- The timer of an engaged identity was armed by a call to reschedule that found it engaged. -/
theorem Trace.armed_engaged (h : Trace (fresh c) ms a) (htimer : a.scheduler.timerOf id = some n)
    (hengaged : (a.scheduler.stateOf id).Engaged) : ArmedEngaged c id n ms a := by
  refine h.history (P := fun ms a => a.scheduler.timerOf id = some n →
      (a.scheduler.stateOf id).Engaged → ArmedEngaged c id n ms a)
    (fun ms a m b htrace hstep ih htimer hengaged => ?_) (fun htimer => by cases htimer)
    htimer hengaged
  have hc : Coherent c a := Reachable.coherent ⟨ms, htrace⟩
  obtain ⟨hbefore, hkept | ⟨delay, rfl⟩⟩ := hstep.engaged_before hc htimer hengaged
  · exact (ih hkept hbefore).concat hstep
  · exact .intro ms [] delay a b rfl htrace hbefore hstep htimer (.nil b)

/-- A trigger that is recorded takes the timer of an identity that is not busy. -/
theorem Step.timerOf_trigger {cause : TriggerCause} {terminating : Bool}
    (hstep : Step a (.submit id cause terminating) b) (hc : Coherent c a)
    (hrecorded : Records a.scheduler id (.submit id cause terminating)) :
    b.scheduler.timerOf id =
      if (a.scheduler.stateOf id).isBusy then a.scheduler.timerOf id else none := by
  cases hrecorded with
  | submit _ _ hcause hkept htaken =>
    obtain ⟨d, hd, _⟩ := Decision.onTrigger_hasEvent (a.scheduler.stateOf? id) cause terminating
      hcause hkept htaken
    cases hstep with
    | submit =>
      dsimp only
      rw [Scheduler.timerOf, Scheduler.trigger_eq, hd, Scheduler.carryOut?,
        Scheduler.stateOf?_carryOut, if_pos rfl]
      cases Decision.onTrigger_triggered _ (hc.orderly.sound _ id) cause terminating d hd with
      | dropped h => exact absurd h hcause
      | doomed h => exact absurd h hcause
      | offered _ hidle hunqueued st _ ht =>
        obtain ⟨queued, hstored⟩ := a.scheduler.stored_enqueue st
        have hfree : (a.scheduler.stateOf id).isBusy = false :=
          (IdentityState.isBusy_eq_false_iff _).mpr ⟨hidle, hunqueued⟩
        rw [hstored, Option.bind_some, ht, hfree, if_neg Bool.false_ne_true]
      | noted _ hbusy st _ _ ht =>
        have hbusy : (a.scheduler.stateOf id).isBusy = true :=
          (IdentityState.isBusy_iff _).mpr hbusy
        rw [if_pos hbusy, ← Scheduler.timer_stateOf]
        exact ht

/-- A trigger that is recorded leaves no timer, unless its identity is in flight or queued, which
keeps the timer that it has. That timer goes back to a call to reschedule which found the identity
in flight, queued or with an event that waits, so without such a call no trigger leaves a timer. -/
theorem Trace.trigger_disarms {cause : TriggerCause} {terminating : Bool}
    (h : Trace (fresh c) ms a) (hstep : Step a (.submit id cause terminating) b)
    (hrecorded : Records a.scheduler id (.submit id cause terminating)) :
    b.scheduler.timerOf id =
      (if (a.scheduler.stateOf id).isBusy then a.scheduler.timerOf id else none) ∧
    ∀ n, b.scheduler.timerOf id = some n → ArmedEngaged c id n ms a := by
  have htimer := hstep.timerOf_trigger (Reachable.coherent ⟨ms, h⟩) hrecorded
  refine ⟨htimer, fun n hn => ?_⟩
  rw [htimer] at hn
  split at hn
  · rename_i hbusy
    exact h.armed_engaged hn (Or.inl hbusy)
  · cases hn

/-- A new identity is dispatched with success and is to be looked at again after a delay. -/
def lookAgain (id : ResourceId) (delay : Span) : List Move :=
  [.run, .submit id .added false, .takeWorker, .begin ⟨id, [.added]⟩ none,
    .finish id (.succeeded none (some delay))]

/-- The trigger that comes before the delay is over takes the timer. -/
theorem trigger_disarms_lookAgain :
    ∃ a b, Trace (fresh {}) (lookAgain ⟨"App", none, "app"⟩ (.ofMillis 5000)) a ∧
      a.scheduler.timerOf ⟨"App", none, "app"⟩ = some 0 ∧
      Step a (.submit ⟨"App", none, "app"⟩ .updated false) b ∧
      Records a.scheduler ⟨"App", none, "app"⟩ (.submit ⟨"App", none, "app"⟩ .updated false) ∧
      b.scheduler.timerOf ⟨"App", none, "app"⟩ = none := by
  let id : ResourceId := ⟨"App", none, "app"⟩
  have hrun : ((fresh {}).replay? (lookAgain id (.ofMillis 5000))).any (fun a =>
      a.scheduler.timerOf id = some 0 ∧ (a.scheduler.stateOf id).isBusy = false ∧
        (a.scheduler.stateOf id).event = .quiet) = true := by
    decide
  obtain ⟨a, hreplay, hstate⟩ := (Option.any_eq_true _ _).mp hrun
  obtain ⟨htimer, hfree, hquiet⟩ := of_decide_eq_true hstate
  have htrace := replay?_sound _ a _ hreplay
  have hrecorded : Records a.scheduler id (.submit id .updated false) :=
    .submit .updated false nofun (by rw [hquiet]; nofun) fun _ => rfl
  have hdisarms := (htrace.trigger_disarms (.submit a id .updated false) hrecorded).1
  rw [hfree, if_neg Bool.false_ne_true] at hdisarms
  exact ⟨a, _, htrace, htimer, .submit a id .updated false, hrecorded, hdisarms⟩

/-- A trigger that is recorded at the end of a run leaves its identity a timer. -/
def LeavesTimer (c : SchedulerConfig) (ms : List Move) (id : ResourceId) : Prop :=
  ∃ a b, Trace (fresh c) ms a ∧ Step a (.submit id .updated false) b ∧
    Records a.scheduler id (.submit id .updated false) ∧ b.scheduler.timerOf id ≠ none

theorem leavesTimer_of_replay {ms : List Move}
    (h : ((fresh c).replay? ms).any (fun a =>
      (a.scheduler.stateOf id).event ≠ .deleted ∧
        (a.scheduler.trigger id .updated false).timerOf id ≠ none) = true) :
    LeavesTimer c ms id := by
  obtain ⟨a, hreplay, h⟩ := (Option.any_eq_true _ _).mp h
  obtain ⟨hkept, htimer⟩ := of_decide_eq_true h
  exact ⟨a, _, replay?_sound _ a ms hreplay, .submit a id .updated false,
    .submit .updated false nofun hkept fun _ => rfl, htimer⟩

/-- An identity that is rescheduled during its dispatch, or while it is queued, keeps the timer
when it is triggered. -/
theorem timer_outlasts_trigger :
    LeavesTimer {} [.run, .submit ⟨"App", none, "app"⟩ .added false, .takeWorker,
      .begin ⟨⟨"App", none, "app"⟩, [.added]⟩ none,
      .reschedule ⟨"App", none, "app"⟩ (.ofMillis 5000)] ⟨"App", none, "app"⟩ ∧
    LeavesTimer {} [.run, .submit ⟨"App", none, "app"⟩ .added false,
      .reschedule ⟨"App", none, "app"⟩ (.ofMillis 5000)] ⟨"App", none, "app"⟩ :=
  ⟨leavesTimer_of_replay (by decide), leavesTimer_of_replay (by decide)⟩

end Activity
end Reconciliation
