import Reconciliation.Proofs.Scheduler.Timers

/-!
What leads to the next dispatch of an identity. A dispatch of it is in flight, or an event of it
waits, or a timer. Only the end of a dispatch can leave an identity without any of these, and it
does so only where nothing else is asked for. While the scheduler is not stopped, what leads to
the next dispatch is not lost again.
-/
namespace Reconciliation

/-- The state of an identity shows what leads to its next dispatch. -/
def IdentityState.Followed (st : IdentityState) : Prop :=
  st.inFlight = true ∨ st.event = .pending ∨ st.timer ≠ none

/-- The state of an identity after the end of a dispatch that nothing follows. -/
structure Settles (config : SchedulerConfig) (summary : DispatchSummary) (st : IdentityState) :
    Prop where
  final : ∀ r, st.lastFailure = some r → r.terminal = true
  forsaken : Forsakes config summary ∨ config.maxInterval = none

/-- What the end of the latest dispatch of an identity says about its state. -/
structure Tended (config : SchedulerConfig) (last : Option DispatchSummary)
    (st : IdentityState) : Prop where
  relieved : st.event = .released → st.lastFailure = none
  pursued : st.Followed ∨ st.event = .released ∨
    ∃ summary, last = some summary ∧ Settles config summary st

theorem Tended.promoted {config : SchedulerConfig} {last : Option DispatchSummary}
    {st : IdentityState} (h : Tended config last st) : Tended config last st.promoted := by
  unfold IdentityState.promoted
  split
  · refine ⟨h.relieved, h.pursued.imp_right (Or.imp_right ?_)⟩
    rintro ⟨summary, hlast, hs⟩
    exact ⟨summary, hlast, hs.final, hs.forsaken⟩
  · exact h

theorem Tended.or {config : SchedulerConfig} {last last' : Option DispatchSummary}
    {st : IdentityState} (h : Tended config last st) : Tended config (last.or last') st := by
  refine ⟨h.relieved, h.pursued.imp_right (Or.imp_right ?_)⟩
  rintro ⟨summary, rfl, hs⟩
  exact ⟨summary, rfl, hs⟩

theorem tended_of_event {config : SchedulerConfig} {last : Option DispatchSummary}
    {st : IdentityState} (he : st.event ≠ .released) (h : st.Followed) : Tended config last st :=
  ⟨fun hreleased => absurd hreleased he, Or.inl h⟩

theorem tended_of_pending {config : SchedulerConfig} {last : Option DispatchSummary}
    {st : IdentityState} (he : st.event = .pending) : Tended config last st :=
  tended_of_event (by rw [he]; nofun) (Or.inr (Or.inl he))

namespace Decision
variable {config : SchedulerConfig} {old : Option IdentityState} {cause : TriggerCause}
  {d : Decision} {o st : IdentityState}

/-- A trigger leaves the failure on record as it was. -/
theorem Triggered.lastFailure_eq (h : Triggered old cause d) (s : Scheduler)
    (hst : s.stored d = some st) : st.lastFailure = (old.getD {}).lastFailure := by
  cases h with
  | dropped => cases hst
  | doomed _ o ho =>
    obtain rfl := Option.some.inj hst
    rw [ho]
    rfl
  | offered _ _ _ st' _ _ hf =>
    obtain ⟨queued, rfl⟩ := Scheduler.of_stored_enqueue hst
    exact hf
  | noted _ _ st' _ _ _ hf =>
    obtain rfl := Option.some.inj hst
    exact hf

/-- After a trigger a dispatch is in flight or an event waits. -/
theorem Triggered.tended (h : Triggered old cause d) (s : Scheduler) (hst : s.stored d = some st)
    (hsound : st.Sound) (last : Option DispatchSummary) : Tended config last st := by
  cases h with
  | dropped => cases hst
  | doomed _ o ho hflight =>
    obtain rfl := Option.some.inj hst
    exact tended_of_event nofun (Or.inl hflight)
  | offered _ _ _ st' he _ hf =>
    obtain ⟨queued, rfl⟩ := Scheduler.of_stored_enqueue hst
    exact tended_of_pending he
  | noted _ _ st' _ he =>
    obtain rfl := Option.some.inj hst
    rcases he with he | he
    · exact tended_of_pending he
    · exact tended_of_event (by rw [he]; nofun) (Or.inl (hsound.deleted_inFlight he))

theorem Fires.lastFailure_eq (h : Fires o d) (s : Scheduler) (hst : s.stored d = some st) :
    st.lastFailure = o.lastFailure := by
  cases h with
  | handed st' _ _ hf =>
    obtain ⟨queued, rfl⟩ := Scheduler.of_stored_enqueue hst
    exact hf
  | ignored =>
    obtain rfl := Option.some.inj hst
    rfl

/-- A timer that is used up hands the identity out, or finds it deleted or released. -/
theorem Fires.tended (h : Fires o d) (s : Scheduler) (hst : s.stored d = some st)
    (hsound : st.Sound) (hrelieved : o.event = .released → o.lastFailure = none)
    (last : Option DispatchSummary) : Tended config last st := by
  cases h with
  | handed st' he _ hf =>
    obtain ⟨queued, rfl⟩ := Scheduler.of_stored_enqueue hst
    exact tended_of_pending he
  | ignored he =>
    obtain rfl := Option.some.inj hst
    refine ⟨hrelieved, ?_⟩
    rcases he with he | he
    · exact Or.inl (Or.inl (hsound.deleted_inFlight he))
    · exact Or.inr (Or.inl he)

/-- The end of a dispatch leaves an identity to itself only where nothing else is asked for. -/
theorem Closes.tended {summary : DispatchSummary} (h : Closes config o summary d) (s : Scheduler)
    (hst : s.stored d = some st) : Tended config (some summary) st := by
  cases h with
  | dropped => cases hst
  | released st' he _ hf =>
    obtain rfl := Option.some.inj hst
    exact ⟨fun _ => hf, Or.inr (Or.inl he)⟩
  | again st' he =>
    obtain ⟨queued, rfl⟩ := Scheduler.of_stored_enqueue hst
    exact tended_of_pending he
  | retrying st' delay hw =>
    obtain rfl := Option.some.inj hst
    exact tended_of_event (by rw [hw.quiet]; nofun) (Or.inr (Or.inr nofun))
  | rescheduled st' delay he =>
    obtain rfl := Option.some.inj hst
    exact tended_of_event (by rw [he]; nofun) (Or.inr (Or.inr nofun))
  | resting st' he _ hf hend =>
    obtain rfl := Option.some.inj hst
    refine ⟨fun hreleased => ?_, Or.inr (Or.inr ⟨summary, rfl, hf, hend⟩)⟩
    cases he.symm.trans hreleased

end Decision

namespace Activity
variable {c : SchedulerConfig} {a b : Activity} {m : Move} {ms : List Move} {id : ResourceId}
  {old : Option IdentityState} {d : Decision} {st : IdentityState}

/-- Only the end of a dispatch changes the failure on record. -/
theorem Decides.lastFailure_eq (hd : Decides c id old m d) (hold : ∀ o, old = some o → o.Sound)
    (hm : ∀ summary, m ≠ .finish id summary) (s : Scheduler) (hst : s.stored d = some st) :
    st.lastFailure = (old.getD {}).lastFailure := by
  cases hd with
  | submit cause terminating d hd =>
    exact (Decision.onTrigger_triggered old hold cause terminating d hd).lastFailure_eq s hst
  | reschedule delay d hd =>
    obtain ⟨_, rfl⟩ := Decision.onReschedule_eq_some old delay d hd
    obtain rfl := Option.some.inj hst
    rfl
  | fire t hid d hd =>
    obtain ⟨o, rfl, _, hfires⟩ := Decision.onTimer_fires old t d hd
    exact hfires.lastFailure_eq s hst
  | begin o ho =>
    obtain rfl := Option.some.inj hst
    rw [ho]
    rfl
  | finish _ _ _ summary => exact absurd rfl (hm summary)

/-- The summary with which a move ends a dispatch of an identity. -/
def endOf? (id : ResourceId) : Move → Option DispatchSummary
  | .finish k summary => if k = id then some summary else none
  | _ => none

/-- What the latest end of a dispatch of an identity in a run says. -/
def lastEnd? (id : ResourceId) (ms : List Move) : Option DispatchSummary :=
  (ms.filterMap (endOf? id)).getLast?

theorem lastEnd?_concat (id : ResourceId) (ms : List Move) (m : Move) :
    lastEnd? id (ms ++ [m]) = (endOf? id m).or (lastEnd? id ms) := by
  unfold lastEnd?
  rw [List.filterMap_append, List.getLast?_append]
  cases h : endOf? id m with
  | none => simp [h]
  | some summary => simp [h]

/-- What a decision leaves of an identity whose released state had no failure on record. -/
theorem Decides.tended (hd : Decides c id old m d) (hold : ∀ o, old = some o → o.Sound)
    (hrelieved : ∀ o, old = some o → o.event = .released → o.lastFailure = none) (s : Scheduler)
    (hst : s.stored d = some st) (hsound : st.Sound) : Tended c (endOf? id m) st := by
  cases hd with
  | submit cause terminating d hd =>
    exact (Decision.onTrigger_triggered old hold cause terminating d hd).tended s hst hsound _
  | reschedule delay d hd =>
    obtain ⟨_, rfl⟩ := Decision.onReschedule_eq_some old delay d hd
    obtain rfl := Option.some.inj hst
    refine ⟨fun he => ?_, Or.inl (Or.inr (Or.inr nofun))⟩
    cases old with
    | none => rfl
    | some o => exact hrelieved o rfl he
  | fire t hid d hd =>
    obtain ⟨o, rfl, _, hfires⟩ := Decision.onTimer_fires old t d hd
    exact hfires.tended s hst hsound (hrelieved o rfl) _
  | begin o ho hq =>
    obtain rfl := Option.some.inj hst
    refine tended_of_event ?_ (Or.inl rfl)
    rw [o.event_begun ((hold o ho).queued_pending hq)]
    nofun
  | finish o ho hflight summary =>
    rw [endOf?, if_pos rfl]
    exact (Decision.onFinished_closes c o summary (hold o ho) hflight).tended s hst

/-- No step but the end of its dispatch changes the failure on record of an identity. -/
theorem Step.lastFailure_eq (hstep : Step a m b) (hc : Coherent c a)
    (hm : ∀ summary, m ≠ .finish id summary) (hst : b.scheduler.stateOf? id = some st) :
    st.lastFailure = (a.scheduler.stateOf id).lastFailure := by
  have hmap : ∀ f : IdentityState → IdentityState, (∀ o, (f o).lastFailure = o.lastFailure) →
      b.scheduler.stateOf? id = (a.scheduler.stateOf? id).map f →
      st.lastFailure = (a.scheduler.stateOf id).lastFailure := by
    intro f hf hstate
    obtain ⟨o, ho, rfl⟩ := Option.map_eq_some_iff.mp (hstate.symm.trans hst)
    rw [Scheduler.stateOf, ho, Option.getD_some, hf]
  cases hstep.bears hc id with
  | aside _ _ hstate => rw [Scheduler.stateOf, ← hstate, hst, Option.getD_some]
  | decided d hd hstate =>
    exact hd.lastFailure_eq (hc.orderly.sound _ id) hm _ (hstate.symm.trans hst)
  | promoted _ hstate =>
    refine hmap _ (fun o => ?_) hstate
    unfold IdentityState.promoted
    split <;> rfl
  | concluded _ hstate => exact hmap IdentityState.cancelTimer (fun _ => rfl) hstate

/-- What the latest end of a dispatch says about an identity stays true step by step. -/
theorem Step.tended (hstep : Step a m b) (hc : Coherent c a) (hconfig : a.scheduler.config = c)
    (hm : m ≠ .conclude) {last : Option DispatchSummary}
    (ha : ∀ o, a.scheduler.stateOf? id = some o → Tended c last o)
    (hst : b.scheduler.stateOf? id = some st) : Tended c ((endOf? id m).or last) st := by
  cases hstep.bears hc id with
  | aside hnone _ hstate =>
    have hend : endOf? id m = none := by
      cases m with
      | finish k summary =>
        refine if_neg fun hk => ?_
        subst hk
        obtain ⟨d, hd⟩ := hstep.decides_finish hc
        exact hnone d hd
      | _ => rfl
    rw [hend, Option.none_or]
    exact ha st (hstate.symm.trans hst)
  | decided d hd hstate =>
    have hsound := (hstep.coherent hc).orderly.sound _ id st hst
    exact ((hconfig ▸ hd).tended (hc.orderly.sound _ id) (fun o ho => (ha o ho).relieved) _
      (hstate.symm.trans hst) hsound).or
  | promoted hrun hstate =>
    subst hrun
    obtain ⟨o, ho, rfl⟩ := Option.map_eq_some_iff.mp (hstate.symm.trans hst)
    exact (ha o ho).promoted
  | concluded hconclude => exact absurd hconclude hm

/-- What the steps of a run keep, given the moves before them, holds at its end. -/
theorem Trace.history {P : List Move → Activity → Prop} {start : Activity}
    (hP : ∀ ms a m b, Trace start ms a → Step a m b → P ms a → P (ms ++ [m]) b)
    (hstart : P [] start) (h : Trace start ms b) : P ms b := by
  have hfrom : ∀ a ms b, Trace a ms b → ∀ before, Trace start before a → P before a →
      P (before ++ ms) b := by
    intro a ms b hrest
    induction hrest with
    | nil =>
      intro before _ ha
      rwa [List.append_nil]
    | cons hstep _ ih =>
      intro before hbefore ha
      rw [List.append_cons]
      exact ih _ (hbefore.append (.cons hstep (.nil _))) (hP _ _ _ _ hbefore hstep ha)
  exact hfrom start ms b h [] (.nil start) hstart

/-- A scheduler that was not stopped: from its start on it runs, and before there is nothing to
report. -/
structure Unhalted (ms : List Move) (a : Activity) : Prop where
  wanted : a.scheduler.stopRequested = false
  started : .run ∈ ms → a.scheduler.running = true
  unstarted : .run ∉ ms → a.scheduler.serving = false ∧ a.inFlight = [] ∧
    ∀ id st, a.scheduler.stateOf? id = some st → st.lastFailure = none

theorem unhalted_fresh (c : SchedulerConfig) : Unhalted [] (fresh c) where
  wanted := rfl
  started := nofun
  unstarted _ := ⟨rfl, rfl, fun _ _ h => by cases h⟩

/-- A step that neither starts nor stops the scheduler leaves its switches as they are. -/
theorem Step.switches_eq (hstep : Step a m b) (hrun : m ≠ .run) (hstop : m ≠ .stop)
    (hconclude : m ≠ .conclude) :
    b.scheduler.running = a.scheduler.running ∧
      b.scheduler.stopRequested = a.scheduler.stopRequested ∧
      b.scheduler.serving = a.scheduler.serving := by
  cases hstep with
  | submit id cause terminating =>
    obtain ⟨_, _, _, heq⟩ := a.scheduler.trigger_frame id cause terminating
    dsimp only
    rw [heq]
    exact ⟨rfl, rfl, rfl⟩
  | reschedule id delay =>
    obtain ⟨_, _, _, heq⟩ := a.scheduler.reschedule_frame id delay
    dsimp only
    rw [heq]
    exact ⟨rfl, rfl, rfl⟩
  | fire t =>
    obtain ⟨_, _, _, heq⟩ := a.scheduler.timerFired_frame t
    dsimp only
    rw [heq]
    exact ⟨rfl, rfl, rfl⟩
  | finish id summary =>
    obtain ⟨_, _, _, _, heq⟩ := a.scheduler.finished_frame id summary
    dsimp only
    rw [heq]
    exact ⟨rfl, rfl, rfl⟩
  | begin id rest request retry s _ _ hb =>
    obtain ⟨_, _, _, _, _, _, rfl⟩ := Scheduler.begin?_eq_some _ id request retry s hb
    exact ⟨rfl, rfl, rfl⟩
  | run => exact absurd rfl hrun
  | stop => exact absurd rfl hstop
  | conclude => exact absurd rfl hconclude
  | refuse | takeWorker | discard | crash | leave => exact ⟨rfl, rfl, rfl⟩

/-- Without a stop the loop never comes to its end. -/
theorem Unhalted.not_conclude (h : Unhalted ms a) (hc : Coherent c a) (ha : Attended a)
    (hstep : Step a m b) : m ≠ .conclude := by
  rintro rfl
  cases hstep with
  | conclude hl =>
    by_cases hrun : .run ∈ ms
    · obtain ⟨_, holds, hloop⟩ := ha (h.started hrun)
      cases hl.symm.trans hloop
    · cases hl.symm.trans (hc.loop_absent (h.unstarted hrun).1)

/-- A scheduler that was not stopped is not stopped by any step but a stop. -/
theorem Unhalted.step (h : Unhalted ms a) (hc : Coherent c a) (ha : Attended a)
    (hstep : Step a m b) (hstop : m ≠ .stop) : Unhalted (ms ++ [m]) b := by
  by_cases hrun : m = .run
  · subst hrun
    have hstarted : .run ∈ ms ++ [.run] := List.mem_append_right _ (List.mem_singleton_self _)
    cases hstep with
    | run s hs =>
      obtain ⟨_, _, rfl⟩ := a.scheduler.run_frame s hs
      exact ⟨rfl, fun _ => rfl, fun hno => absurd hstarted hno⟩
    | refuse e hs =>
      refine ⟨h.wanted, fun _ => ?_, fun hno => absurd hstarted hno⟩
      by_contra hidle
      have hserving := (h.unstarted fun hrun => hidle (h.started hrun)).1
      unfold Scheduler.run at hs
      rw [hserving] at hs
      cases hs
  · have hconclude := h.not_conclude hc ha hstep
    obtain ⟨hrunning, hwanted, hserving⟩ := hstep.switches_eq hrun hstop hconclude
    have hmem : .run ∈ ms ++ [m] → .run ∈ ms := fun hmem =>
      (List.mem_append.mp hmem).resolve_right fun hm => hrun (List.mem_singleton.mp hm).symm
    refine ⟨hwanted.trans h.wanted, fun hstarted => hrunning.trans (h.started (hmem hstarted)),
      fun hno => ?_⟩
    obtain ⟨hunserved, hnone, hfailure⟩ :=
      h.unstarted fun hstarted => hno (List.mem_append_left _ hstarted)
    -- nothing is dispatched yet, so nothing ends
    have hbegin : b.inFlight = [] ∧ ∀ id summary, m ≠ .finish id summary := by
      cases hstep with
      | begin _ _ _ _ _ hl => cases hl.symm.trans (hc.loop_absent hunserved)
      | finish _ _ hf => exact absurd (hnone ▸ hf) List.not_mem_nil
      | _ => exact ⟨hnone, fun _ _ h => by cases h⟩
    refine ⟨hserving.trans hunserved, hbegin.1, fun id st hst => ?_⟩
    rw [hstep.lastFailure_eq hc (hbegin.2 id) hst, Scheduler.stateOf]
    cases ho : a.scheduler.stateOf? id with
    | none => rfl
    | some o => exact hfailure id o ho

theorem Trace.unhalted (h : Trace (fresh c) ms a) (hstop : .stop ∉ ms) : Unhalted ms a := by
  refine h.history (P := fun ms a => .stop ∉ ms → Unhalted ms a)
    (fun ms a m b htrace hstep ih hstop => ?_) (fun _ => unhalted_fresh c) hstop
  rw [List.mem_append, List.mem_singleton, not_or] at hstop
  have hreachable : Reachable c a := ⟨ms, htrace⟩
  exact (ih hstop.1).step hreachable.coherent hreachable.attended hstep (Ne.symm hstop.2)

theorem Trace.tended (h : Trace (fresh c) ms a) (hstop : .stop ∉ ms)
    (hst : a.scheduler.stateOf? id = some st) : Tended c (lastEnd? id ms) st := by
  refine h.history (P := fun ms a => .stop ∉ ms → ∀ st, a.scheduler.stateOf? id = some st →
    Tended c (lastEnd? id ms) st) (fun ms a m b htrace hstep ih hstop st hst => ?_)
    (fun _ _ h => by cases h) hstop st hst
  rw [List.mem_append, List.mem_singleton, not_or] at hstop
  have hreachable : Reachable c a := ⟨ms, htrace⟩
  have hm := (htrace.unhalted hstop.1).not_conclude hreachable.coherent hreachable.attended hstep
  rw [lastEnd?_concat]
  exact hstep.tended hreachable.coherent hreachable.config_eq hm (ih hstop.1) hst

/-- A dispatch of the identity is in flight, or it stands in the ready queue, or it waits for a
timer that is armed. -/
def Pursued (a : Activity) (id : ResourceId) : Prop :=
  id ∈ a.inFlight ∨
  (∃ st, a.scheduler.stateOf? id = some st ∧ st.queued = true ∧ id ∈ a.scheduler.ready) ∨
  ∃ t ∈ a.scheduler.armed, t.id = id ∧ a.scheduler.Expects t

/-- What the state of an identity shows is there, while the scheduler runs. -/
theorem Reachable.pursued (h : Reachable c a) (hrunning : a.scheduler.running = true)
    (hst : a.scheduler.stateOf? id = some st) (hfollowed : st.Followed) : Pursued a id := by
  have hfits := h.coherent.orderly id st hst
  have hflight : st.inFlight = true → Pursued a id := fun hflight =>
    Or.inl ((h.coherent.mem_inFlight_iff id).mpr ⟨st, hst, hflight⟩)
  rcases hfollowed with hf | hp | ht
  · exact hflight hf
  · rcases hfits.prompt hrunning hp with hf | hq
    · exact hflight hf
    · exact Or.inr (Or.inl ⟨st, hst, hq, hfits.in_ready hq⟩)
  · obtain ⟨n, hn⟩ := Option.ne_none_iff_exists'.mp ht
    have htimer : a.scheduler.timerOf id = some n := by
      rw [Scheduler.timerOf, hst, Option.bind_some, hn]
    obtain ⟨t, hlatest, htoken⟩ := h.timed.latest id n htimer
    have hid : t.id = id := by simpa using List.find?_some hlatest
    refine Or.inr (Or.inr ⟨t, List.mem_of_find?_eq_some hlatest, hid, ?_⟩)
    rw [Scheduler.Expects, hid, htimer, htoken]

end Activity
end Reconciliation
