import Mathlib.Data.List.Induction
import Reconciliation.Proofs.Scheduler.Pursuit

/-!
The causes that a dispatch is told. Triggers, timers and two kinds of ends of dispatches put a
cause on record; a dispatch takes all that are there, and the others go with the state of the
identity or with its finalizer. A run is cut where the record was last empty for one of these
reasons, and what is on record is what the steps since then have put there.
-/
namespace Reconciliation

theorem IdentityState.addCause_eraseDups (causes : List TriggerCause) (cause : TriggerCause) :
    addCause causes.eraseDups cause = (causes ++ [cause]).eraseDups := by
  have hlast : (if cause ∈ causes then [] else [cause]) = ([cause].removeAll causes).eraseDups := by
    by_cases hmem : cause ∈ causes <;> simp [List.removeAll, List.eraseDups_cons, hmem]
  rw [List.eraseDups_append, ← hlast, addCause]
  by_cases hmem : cause ∈ causes <;> simp [hmem]

theorem IdentityState.nodup_addCause {causes : List TriggerCause} (h : causes.Nodup)
    (cause : TriggerCause) : (addCause causes cause).Nodup := by
  unfold addCause
  split
  · exact h
  · rename_i hnew
    rw [List.contains_iff_mem] at hnew
    exact List.nodup_append.mpr ⟨h, List.nodup_singleton cause, by
      rintro x hx y hy rfl
      exact hnew (List.mem_singleton.mp hy ▸ hx)⟩

theorem IdentityState.nodup_eraseDups (causes : List TriggerCause) : causes.eraseDups.Nodup := by
  induction causes using List.reverseRecOn with
  | nil => exact List.nodup_nil
  | append_singleton causes cause ih =>
    rw [← addCause_eraseDups]
    exact nodup_addCause ih cause

theorem IdentityState.accepts_of_kept (st : IdentityState) (hd : st.event ≠ .deleted)
    (hr : st.event ≠ .released) : st.acceptsEvents = true := by
  rw [acceptsEvents_iff]
  cases hevent : st.event with
  | quiet => exact Or.inl rfl
  | pending => exact Or.inr rfl
  | deleted => exact absurd hevent hd
  | released => exact absurd hevent hr

open IdentityState (addCause)

namespace Decision

/-- The causes that a decision leaves on record. -/
def causes (d : Decision) : List TriggerCause := (d.state?.getD {}).causes

theorem causes_stored (s : Scheduler) (d : Decision) :
    ((s.stored d).getD {}).causes = d.causes := by
  cases d with
  | enqueue st =>
    obtain ⟨queued, heq⟩ := s.stored_enqueue st
    rw [heq]
    rfl
  | _ => rfl

theorem record_causes_of_accepts (st : IdentityState) (cause : TriggerCause)
    (hacc : st.acceptsEvents = true) : (record st cause).causes = addCause st.causes cause := by
  unfold record
  rw [if_pos hacc, st.markEvent_of_accepts cause hacc]
  dsimp only
  split <;> rfl

/-- A trigger is added to the causes, unless the object is deleted. -/
theorem onTrigger_causes (old : Option IdentityState) (cause : TriggerCause)
    (terminating : Bool) (hc : cause ≠ .deleted) (d : Decision)
    (hd : onTrigger old cause terminating = some d) :
    d.causes = if (old.getD {}).event = .deleted then (old.getD {}).causes
      else addCause (old.getD {}).causes cause := by
  unfold onTrigger at hd
  rw [if_neg hc] at hd
  dsimp only at hd
  split at hd
  · rename_i hreleased
    split at hd
    · cases hd
    · obtain rfl := Option.some.inj hd
      rw [if_neg (by rw [hreleased]; nofun)]
      exact record_causes_of_accepts _ cause rfl
  · rename_i hreleased
    obtain rfl := Option.some.inj hd
    split
    · rename_i hdeleted
      have hignored : ¬(old.getD {}).acceptsEvents = true := by
        simp [IdentityState.acceptsEvents_iff, hdeleted]
      rw [record, if_neg hignored]
      rfl
    · rename_i hdeleted
      exact record_causes_of_accepts _ cause
        (IdentityState.accepts_of_kept _ hdeleted hreleased)

theorem afterTerminal_causes (st : IdentityState) (e : Error) (reschedule : Option Span) :
    (afterTerminal st e reschedule).causes = st.causes := by
  unfold afterTerminal
  dsimp only
  split
  · rfl
  · cases reschedule <;> rfl

theorem afterTransient_causes (config : SchedulerConfig) (st : IdentityState) (e : Error) :
    (afterTransient config st e).causes = st.causes := by
  unfold afterTransient
  cases config.retry with
  | none =>
    dsimp only
    split <;> rfl
  | some policy =>
    dsimp only
    split
    · rfl
    · generalize (st.retry.getD { policy := policy }).nextDelay = next
      obtain ⟨delay?, execution⟩ := next
      cases delay? with
      | some delay => rfl
      | none => cases config.maxInterval <;> rfl

end Decision

namespace Activity
variable {c : SchedulerConfig} {a b x : Activity} {m : Move} {ms : List Move} {id : ResourceId}
  {old : Option IdentityState} {d : Decision}

/-- The moves that put a cause on record for an identity in its old state: a trigger that is
accepted, a timer that the identity waits for, a conflict, and an end without event that asks
for the next dispatch at once. -/
inductive Notes (id : ResourceId) (old : Option IdentityState) : Move → TriggerCause → Prop
  | trigger (cause : TriggerCause) (terminating : Bool) (hc : cause ≠ .deleted)
      (hkept : (old.getD {}).event ≠ .deleted)
      (htaken : (old.getD {}).event = .released → terminating = false) :
      Notes id old (.submit id cause terminating) cause
  | timer (t : ArmedTimer) (hid : t.id = id) (st : IdentityState) (hst : old = some st)
      (htimer : st.timer = some t.token) (hacc : st.acceptsEvents = true) :
      Notes id old (.fire t) t.cause
  | conflict (summary : DispatchSummary) (e : Error) (he : summary.error = some e)
      (hclass : Scheduler.classOf e summary.noRetry = .conflict)
      (hkept : (old.getD {}).event ≠ .deleted) : Notes id old (.finish id summary) .retry
  | again (summary : DispatchSummary) (hn : summary.error = none)
      (hr : summary.finalizerRemoved = false) (hs : summary.skipped = false)
      (hquiet : (old.getD {}).event = .quiet) (hnow : summary.reschedule = some .zero) :
      Notes id old (.finish id summary) .rescheduled

/-- The steps after which nothing is on record for an identity: a dispatch has taken the causes,
the state is gone, or a dispatch has ended with the finalizer removed. -/
inductive Clears (id : ResourceId) (b : Activity) : Move → Prop
  | taken (request : ReconciliationRequest) (retry : Option RetryInfo) (hid : request.id = id) :
      Clears id b (.begin request retry)
  | gone (m : Move) (hgone : b.scheduler.stateOf? id = none) : Clears id b m
  | released (summary : DispatchSummary) (hn : summary.error = none)
      (hr : summary.finalizerRemoved = true) : Clears id b (.finish id summary)

/-- What becomes of the record where it is not cleared: a cause is noted, or nothing is. -/
inductive Keeps (id : ResourceId) (old : Option IdentityState) (m : Move)
    (before : List TriggerCause) : List TriggerCause → Prop
  | noted (cause : TriggerCause) (hn : Notes id old m cause) :
      Keeps id old m before (addCause before cause)
  | silent (hnone : ∀ cause, ¬Notes id old m cause) : Keeps id old m before before

section
variable {config : SchedulerConfig} {st : IdentityState} {summary : DispatchSummary}

/-- That the object is deleted is not noted. -/
theorem keeps_of_deletion (terminating : Bool) (hkept : (Decision.onDeleted st).state? ≠ none) :
    Keeps id (some st) (.submit id .deleted terminating) st.causes
      (Decision.onDeleted st).causes := by
  have hsame : (Decision.onDeleted st).causes = st.causes := by
    unfold Decision.onDeleted at hkept ⊢
    split at hkept
    · rename_i hflight
      rw [if_pos hflight]
      rfl
    · exact absurd rfl hkept
  rw [hsame]
  exact .silent fun cause hn => by cases hn; exact absurd rfl ‹_›

/-- Any other trigger on which there is a decision is noted, unless the object is deleted. -/
theorem keeps_of_trigger (cause : TriggerCause) (terminating : Bool) (hc : cause ≠ .deleted)
    (hd : Decision.onTrigger old cause terminating = some d) :
    Keeps id old (.submit id cause terminating) (old.getD {}).causes d.causes := by
  rw [Decision.onTrigger_causes old cause terminating hc d hd]
  split
  · rename_i hdeleted
    exact .silent fun cause hn => by cases hn; exact absurd hdeleted ‹_›
  · rename_i hdeleted
    refine .noted cause (.trigger cause terminating hc hdeleted fun hreleased => ?_)
    rw [← Bool.not_eq_true]
    intro hterminating
    have hnone := (onTrigger_eq_none_iff old cause terminating).mpr
      (by rw [if_neg hc]; exact ⟨hreleased, hterminating⟩)
    cases hd.symm.trans hnone

/-- The cause of a timer is noted where the identity waits for it and takes events. -/
theorem keeps_of_timer (t : ArmedTimer) (hid : t.id = id) (hd : Decision.onTimer old t = some d) :
    Keeps id old (.fire t) (old.getD {}).causes d.causes := by
  obtain ⟨st, rfl, hfires⟩ := Option.bind_eq_some_iff.mp hd
  obtain ⟨htimer, heq⟩ := Option.ite_none_right_eq_some.mp hfires
  obtain rfl := Option.some.inj heq
  split
  · rename_i hacc
    rw [IdentityState.markEvent_of_accepts _ t.cause hacc]
    exact .noted t.cause (.timer t hid st rfl htimer hacc)
  · rename_i hacc
    refine .silent fun cause hn => ?_
    cases hn with
    | timer _ _ st' hst' _ hacc' =>
      obtain rfl := Option.some.inj hst'
      exact hacc hacc'

/-- The end of a dispatch with a failure notes a cause only for a conflict. -/
theorem keeps_of_failure {e : Error} (he : summary.error = some e) (hr : st.event ≠ .released)
    (hkept : (Decision.onFinished config st summary).state? ≠ none) :
    Keeps id (some st) (.finish id summary) st.causes
      (Decision.onFinished config st summary).causes := by
  have hsilent : Scheduler.classOf e summary.noRetry ≠ .conflict →
      ∀ cause, ¬Notes id (some st) (.finish id summary) cause := by
    rintro hclass cause (_ | _ | ⟨_, e', he', hclass'⟩ | ⟨_, hn⟩)
    · obtain rfl := Option.some.inj (he.symm.trans he')
      exact hclass hclass'
    · cases he.symm.trans hn
  rw [Decision.onFinished, he] at hkept ⊢
  dsimp only [Decision.afterFailure] at hkept ⊢
  split at hkept
  · exact absurd rfl hkept
  rename_i hdeleted
  rw [if_neg hdeleted]
  rw [IdentityState.isDeleted_iff] at hdeleted
  cases hclass : Scheduler.classOf e summary.noRetry with
  | conflict =>
    dsimp only
    rw [IdentityState.markEvent_of_accepts _ .retry (IdentityState.accepts_of_kept _ hdeleted hr)]
    exact .noted .retry (.conflict summary e he hclass hdeleted)
  | terminal =>
    dsimp only
    rw [Decision.afterTerminal_causes]
    exact .silent (hsilent fun h => by cases hclass.symm.trans h)
  | transient =>
    dsimp only
    rw [Decision.afterTransient_causes]
    exact .silent (hsilent fun h => by cases hclass.symm.trans h)

/-- A success notes a cause only without event, and for a delay of zero. -/
theorem not_notes_of_success (hn : summary.error = none)
    (hlater : st.event = .quiet → summary.reschedule ≠ some .zero) (cause : TriggerCause) :
    ¬Notes id (some st) (.finish id summary) cause := by
  rintro (_ | _ | ⟨_, e, he⟩ | ⟨_, _, _, _, hquiet, hnow⟩)
  · cases hn.symm.trans he
  · exact hlater hquiet hnow

/-- Without event, a success that asks for the next dispatch at once is noted, and no other. -/
theorem keeps_of_idleSuccess {released : IdentityState} (hn : summary.error = none)
    (hremoved : summary.finalizerRemoved = false) (hran : summary.skipped = false)
    (hquiet : st.event = .quiet) (hacc : released.acceptsEvents = true)
    (hcauses : released.causes = st.causes) :
    Keeps id (some st) (.finish id summary) st.causes
      (Decision.afterIdleSuccess config released summary.reschedule).causes := by
  unfold Decision.afterIdleSuccess
  cases hreschedule : summary.reschedule with
  | none =>
    have hnone : ∀ cause, ¬Notes id (some st) (.finish id summary) cause :=
      not_notes_of_success hn fun _ h => by cases hreschedule.symm.trans h
    rw [← hcauses]
    cases config.maxInterval <;> exact .silent hnone
  | some delay =>
    dsimp only
    split
    · rename_i hzero
      have hnow : delay = .zero := congrArg Span.mk (eq_of_beq hzero)
      rw [IdentityState.markEvent_of_accepts _ .rescheduled hacc, ← hcauses]
      exact .noted .rescheduled (.again summary hn hremoved hran hquiet
        (hreschedule.trans (congrArg some hnow)))
    · rename_i hlater
      rw [← hcauses]
      refine .silent (not_notes_of_success hn fun _ hnow => hlater ?_)
      obtain rfl := Option.some.inj (hreschedule.symm.trans hnow)
      rfl

/-- A success that keeps the finalizer notes at most that the identity is run again at once. -/
theorem keeps_of_success (hn : summary.error = none) (hremoved : summary.finalizerRemoved = false)
    (hr : st.event ≠ .released)
    (hkept : (Decision.onFinished config st summary).state? ≠ none) :
    Keeps id (some st) (.finish id summary) st.causes
      (Decision.onFinished config st summary).causes := by
  rw [Decision.onFinished, hn] at hkept ⊢
  dsimp only [Decision.afterSuccess] at hkept ⊢
  rw [hremoved] at hkept ⊢
  simp only [Bool.false_eq_true, if_false] at hkept ⊢
  split at hkept
  · exact absurd rfl hkept
  rename_i hdeleted
  rw [if_neg hdeleted]
  rw [IdentityState.isDeleted_iff] at hdeleted
  have hacc := IdentityState.accepts_of_kept st hdeleted hr
  split at hkept
  · rename_i hevent
    rw [if_pos hevent]
    rw [IdentityState.hasEvent_iff] at hevent
    exact .silent (not_notes_of_success hn fun hquiet => by cases hquiet.symm.trans hevent)
  rename_i hevent
  rw [if_neg hevent]
  split at hkept
  · exact absurd rfl hkept
  rename_i hran
  rw [if_neg hran]
  have hquiet : st.event = .quiet := ((IdentityState.acceptsEvents_iff st).mp hacc).resolve_right
    fun h => hevent ((IdentityState.hasEvent_iff _).mpr h)
  exact keeps_of_idleSuccess hn hremoved (Bool.eq_false_iff.mpr hran) hquiet hacc rfl

end

/-- A decision that neither starts a dispatch nor gives the causes up keeps the record. -/
theorem Decides.keeps {config : SchedulerConfig} (hd : Decides config id old m d)
    (hold : ∀ o, old = some o → o.Sound) (s : Scheduler)
    (hb : b.scheduler.stateOf? id = s.stored d) (hclears : ¬Clears id b m) :
    Keeps id old m (old.getD {}).causes d.causes := by
  have hkept : d.state? ≠ none := by
    intro hnone
    refine hclears (.gone m (hb.trans ?_))
    cases d with
    | drop => rfl
    | _ => cases hnone
  cases hd with
  | submit cause terminating _ hd =>
    by_cases hc : cause = .deleted
    · subst hc
      rw [Decision.onTrigger, if_pos rfl] at hd
      obtain ⟨st, rfl, rfl⟩ := Option.map_eq_some_iff.mp hd
      exact keeps_of_deletion terminating hkept
    · exact keeps_of_trigger cause terminating hc hd
  | reschedule delay _ hd =>
    obtain ⟨_, rfl⟩ := Decision.onReschedule_eq_some old delay _ hd
    exact .silent nofun
  | fire t hid _ hd => exact keeps_of_timer t hid hd
  | begin st hst hq hidle request hrequest retry =>
    exact absurd (.taken request retry (congrArg ReconciliationRequest.id hrequest)) hclears
  | finish st hst hflight summary =>
    subst hst
    have hreleased : st.event ≠ .released := fun he => by
      cases ((hold st rfl).released_idle he).symm.trans hflight
    cases he : summary.error with
    | some e => exact keeps_of_failure he hreleased hkept
    | none =>
      cases hremoved : summary.finalizerRemoved with
      | false => exact keeps_of_success he hremoved hreleased hkept
      | true => exact absurd (.released summary he hremoved) hclears

/-- A move that notes a cause is decided about its identity. -/
theorem Notes.decides {cause : TriggerCause} (hn : Notes id (a.scheduler.stateOf? id) m cause)
    (hstep : Step a m b) (hc : Coherent c a) :
    ∃ d, Decides a.scheduler.config id (a.scheduler.stateOf? id) m d := by
  cases hn with
  | trigger cause terminating hcause hkept htaken =>
    cases hd : Decision.onTrigger (a.scheduler.stateOf? id) cause terminating with
    | some d => exact ⟨d, .submit cause terminating d hd⟩
    | none =>
      rw [onTrigger_eq_none_iff, if_neg hcause] at hd
      cases (htaken hd.1).symm.trans hd.2
  | timer t hid st hst htimer hacc =>
    have hexp : a.scheduler.Expects t := by
      rw [Scheduler.Expects, hid, Scheduler.timerOf, hst]
      exact htimer
    obtain ⟨d, hd⟩ := Scheduler.expects_iff_onTimer.mp hexp
    exact ⟨d, .fire t hid d (hid ▸ hd)⟩
  | conflict | again => exact hstep.decides_finish hc

/-- A step that does not clear the record of an identity notes a cause in it or leaves it as it
is. -/
theorem Step.keeps (hstep : Step a m b) (hc : Coherent c a) (hclears : ¬Clears id b m) :
    Keeps id (a.scheduler.stateOf? id) m (a.scheduler.stateOf id).causes
      (b.scheduler.stateOf id).causes := by
  unfold Scheduler.stateOf
  cases hstep.bears hc id with
  | aside hnone _ hstate =>
    rw [hstate]
    refine .silent fun cause hn => ?_
    obtain ⟨d, hd⟩ := hn.decides hstep hc
    exact hnone d hd
  | decided d hd hstate =>
    rw [congrArg (fun old => (old.getD {}).causes) hstate, Decision.causes_stored]
    exact hd.keeps (hc.orderly.sound _ id) a.scheduler hstate hclears
  | promoted hm hstate =>
    subst hm
    rw [hstate]
    cases a.scheduler.stateOf? id with
    | none => exact .silent nofun
    | some st =>
      change Keeps id (some st) .run st.causes st.promoted.causes
      rw [st.causes_promoted]
      exact .silent nofun
  | concluded hm hstate =>
    subst hm
    rw [hstate]
    cases a.scheduler.stateOf? id with
    | none => exact .silent nofun
    | some st => exact .silent nofun

/-- After a step that clears the record nothing is on it. -/
theorem Step.causes_of_clears (hstep : Step a m b) (hc : Coherent c a) (h : Clears id b m) :
    (b.scheduler.stateOf id).causes = [] := by
  unfold Scheduler.stateOf
  cases h with
  | gone _ hgone =>
    rw [hgone]
    rfl
  | taken request retry hid =>
    subst hid
    cases hstep with
    | begin k rest _ _ s hl hr hb =>
      obtain ⟨st, _, _, _, rfl, _, rfl⟩ := Scheduler.begin?_eq_some _ k request retry s hb
      change (((Scheduler.put _ k st.begun).stateOf? k).getD {}).causes = []
      rw [Scheduler.stateOf?_put, if_pos rfl]
      rfl
  | released summary hn hr =>
    cases hstep with
    | finish _ _ hf _ =>
      obtain ⟨st, hst, _⟩ := (hc.mem_inFlight_iff id).mp hf
      obtain ⟨stats, heq⟩ := a.scheduler.finished_eq id summary st hst
      rw [heq, Scheduler.stateOf?_carryOut, if_pos rfl, Decision.causes_stored,
        Decision.onFinished, hn]
      dsimp only [Decision.afterSuccess]
      split
      · rfl
      · rfl

/-- A run at whose end nothing is on record for an identity: no step was taken yet, or the last
one has cleared the record. -/
inductive Opens (c : SchedulerConfig) (id : ResourceId) : List Move → Activity → Prop
  | start : Opens c id [] (fresh c)
  | cleared (ms : List Move) (a b : Activity) (m : Move) (htrace : Trace (fresh c) ms a)
      (hstep : Step a m b) (h : Clears id b m) : Opens c id (ms ++ [m]) b

/-- The causes that a run puts on record for an identity, in the order of their arrival. No step
of the run clears the record. -/
inductive Gathers (id : ResourceId) (a : Activity) : List Move → List TriggerCause → Activity → Prop
  | nil : Gathers id a [] [] a
  | noted (ms : List Move) (causes : List TriggerCause) (x b : Activity) (m : Move)
      (cause : TriggerCause) (h : Gathers id a ms causes x) (hstep : Step x m b)
      (hkept : ¬Clears id b m) (hn : Notes id (x.scheduler.stateOf? id) m cause) :
      Gathers id a (ms ++ [m]) (causes ++ [cause]) b
  | silent (ms : List Move) (causes : List TriggerCause) (x b : Activity) (m : Move)
      (h : Gathers id a ms causes x) (hstep : Step x m b) (hkept : ¬Clears id b m)
      (hnone : ∀ cause, ¬Notes id (x.scheduler.stateOf? id) m cause) :
      Gathers id a (ms ++ [m]) causes b

/-- While causes are gathered for an identity, no dispatch of it begins. -/
theorem Gathers.begins_other {causes : List TriggerCause} (h : Gathers id a ms causes b)
    (request : ReconciliationRequest) (retry : Option RetryInfo)
    (hm : .begin request retry ∈ ms) : request.id ≠ id := by
  have hlast : ∀ (b : Activity) (m : Move), ¬Clears id b m → m = .begin request retry →
      request.id ≠ id := by
    rintro b _ hkept rfl hid
    exact hkept (.taken request retry hid)
  induction h with
  | nil => cases hm
  | noted ms causes x b m cause _ _ hkept _ ih =>
    rcases List.mem_append.mp hm with hm | hm
    · exact ih hm
    · exact hlast b m hkept (List.mem_singleton.mp hm).symm
  | silent ms causes x b m _ _ hkept _ ih =>
    rcases List.mem_append.mp hm with hm | hm
    · exact ih hm
    · exact hlast b m hkept (List.mem_singleton.mp hm).symm

/-- What is on record for an identity was put there since the record was last empty. -/
theorem Trace.gathers (h : Trace (fresh c) ms a) (id : ResourceId) :
    ∃ before window x causes, ms = before ++ window ∧ Opens c id before x ∧
      Gathers id x window causes a ∧ (a.scheduler.stateOf id).causes = causes.eraseDups := by
  refine h.history (P := fun ms a => ∃ before window x causes, ms = before ++ window ∧
      Opens c id before x ∧ Gathers id x window causes a ∧
        (a.scheduler.stateOf id).causes = causes.eraseDups) ?_
    ⟨[], [], fresh c, [], rfl, .start, .nil, rfl⟩
  rintro ms a m b htrace hstep ⟨before, window, x, causes, hms, hopens, hgathers, hcauses⟩
  have hc : Coherent c a := Reachable.coherent ⟨ms, htrace⟩
  by_cases hclears : Clears id b m
  · exact ⟨ms ++ [m], [], b, [], (List.append_nil _).symm, .cleared ms a b m htrace hstep hclears,
      .nil, hstep.causes_of_clears hc hclears⟩
  · have hkeeps := hstep.keeps hc hclears
    generalize (b.scheduler.stateOf id).causes = after at hkeeps
    have hsplit : ms ++ [m] = before ++ (window ++ [m]) := by rw [hms, List.append_assoc]
    cases hkeeps with
    | noted cause hn =>
      refine ⟨before, _, x, _, hsplit, hopens,
        .noted window causes a b m cause hgathers hstep hclears hn, ?_⟩
      rw [hcauses, IdentityState.addCause_eraseDups]
    | silent hnone =>
      exact ⟨before, _, x, causes, hsplit, hopens,
        .silent window causes a b m hgathers hstep hclears hnone, hcauses⟩

/-- A dispatch is told the causes that were put on record for its identity since the record was
last empty: in the order in which they first arrived, each once, and at least one. The record was
emptied by the dispatch before, by the loss of the state or by an end with the finalizer removed;
no dispatch of the identity has begun since. -/
theorem Trace.causes_coalesced {request : ReconciliationRequest} {retry : Option RetryInfo}
    (h : Trace (fresh c) ms a) (hstep : Step a (.begin request retry) b) :
    request.causes ≠ [] ∧ request.causes.Nodup ∧
    ∃ before window x causes, ms = before ++ window ∧ Opens c request.id before x ∧
      Gathers request.id x window causes a ∧ request.causes = causes.eraseDups ∧
      ∀ request' retry', .begin request' retry' ∈ window → request'.id ≠ request.id := by
  have hc : Coherent c a := Reachable.coherent ⟨ms, h⟩
  obtain ⟨before, window, x, causes, hms, hopens, hgathers, hcauses⟩ := h.gathers request.id
  cases hstep with
  | begin id rest _ _ s hl hr hb =>
    obtain ⟨st, hst, hq, _, rfl, _⟩ := Scheduler.begin?_eq_some _ id request retry s hb
    have hst : a.scheduler.stateOf? id = some st := hst
    have hsound := (hc.orderly id st hst).sound
    rw [Scheduler.stateOf, hst, Option.getD_some] at hcauses
    refine ⟨hsound.pending_causes (hsound.queued_pending hq), ?_, before, window, x, causes, hms,
      hopens, hgathers, hcauses, hgathers.begins_other⟩
    rw [hcauses]
    exact IdentityState.nodup_eraseDups causes

/-- Two triggers, one of them twice, arrive during a dispatch that ends with a conflict. -/
def busyConflict (id : ResourceId) : List Move :=
  [.run, .submit id .added false, .takeWorker, .begin ⟨id, [.added]⟩ none,
    .submit id .updated false, .submit id .added false, .submit id .updated false,
    .finish id (.failed (.conflict id ⟨1⟩ ⟨2⟩)), .takeWorker]

/-- The dispatch after a conflict is told what arrived during the first one and that it repeats
it, but not what the first one was told. -/
theorem causes_coalesced_conflict :
    ∃ a b, Trace (fresh {}) (busyConflict ⟨"App", none, "app"⟩) a ∧
      Step a (.begin ⟨⟨"App", none, "app"⟩, [.updated, .added, .retry]⟩ none) b ∧
      [TriggerCause.updated, .added, .retry].Nodup ∧
      ∃ before window x causes, busyConflict ⟨"App", none, "app"⟩ = before ++ window ∧
        Opens {} ⟨"App", none, "app"⟩ before x ∧
        Gathers ⟨"App", none, "app"⟩ x window causes a ∧
        [TriggerCause.updated, .added, .retry] = causes.eraseDups := by
  let id : ResourceId := ⟨"App", none, "app"⟩
  have hrun : ((fresh {}).replay? (busyConflict id)).any (fun a =>
      (a.step? (.begin ⟨id, [.updated, .added, .retry]⟩ none)).isSome) = true := by
    decide
  obtain ⟨a, hreplay, hbegins⟩ := (Option.any_eq_true _ _).mp hrun
  obtain ⟨b, hbegin⟩ := Option.isSome_iff_exists.mp hbegins
  have htrace := replay?_sound _ a _ hreplay
  have hstep := step?_sound a b _ hbegin
  obtain ⟨_, hnodup, before, window, x, causes, hms, hopens, hgathers, hcauses, _⟩ :=
    htrace.causes_coalesced hstep
  exact ⟨a, b, htrace, hstep, hnodup, before, window, x, causes, hms, hopens, hgathers, hcauses⟩

end Activity
end Reconciliation
