import Reconciliation.Proofs.Scheduler.Ending
import Reconciliation.Proofs.Scheduler.Serving
import Reconciliation.Proofs.Scheduler.Taking

/-!
The dispatches in flight. The state of an identity says whether a dispatch of it is in flight,
and only the loop over the ready queue and the end of a dispatch change that. Every operation
keeps the scheduler orderly.
-/
namespace Reconciliation

namespace Decision

/-- The state that is stored has a dispatch in flight. -/
def inFlight (d : Decision) : Bool := d.state?.any (·.inFlight)

theorem inFlight_getD (old : Option IdentityState) :
    (old.getD {}).inFlight = old.any (·.inFlight) := by
  cases old <;> rfl

theorem Takes.inFlight_eq {old : Option IdentityState} {d : Decision} (h : Takes old d) :
    d.inFlight = old.any (·.inFlight) := by
  rw [← inFlight_getD old]
  cases h with
  | recorded st hs hp hc hb => exact hs.inFlight
  | offered st hs hp hc => exact hs.inFlight
  | ignored st hs he hp => exact hs.inFlight
  | armed st delay cause hs he hc => exact hs.inFlight

theorem onDeleted_inFlight (st : IdentityState) : (onDeleted st).inFlight = st.inFlight := by
  unfold onDeleted
  cases hf : st.inFlight with
  | true => exact hf
  | false => rfl

theorem onTrigger_inFlight (old : Option IdentityState) (cause : TriggerCause)
    (terminating : Bool) (d : Decision) (hd : onTrigger old cause terminating = some d) :
    d.inFlight = old.any (·.inFlight) := by
  by_cases hc : cause = .deleted
  · unfold onTrigger at hd
    rw [if_pos hc] at hd
    obtain ⟨st, rfl, rfl⟩ := Option.map_eq_some_iff.mp hd
    exact onDeleted_inFlight st
  · exact (onTrigger_takes old cause terminating hc d hd).inFlight_eq

theorem Ends.inFlight_eq {st : IdentityState} {summary : DispatchSummary} {d : Decision}
    (h : Ends st summary d) : d.inFlight = false := by
  cases h with
  | drop hp => rfl
  | release st' hr he hf hn => exact hr.idle
  | keep st' hr he hp => exact hr.idle
  | enqueue st' hr he => exact hr.idle
  | arm st' delay cause hr he hp => exact hr.idle

end Decision

namespace Scheduler

/-- The state of the identity says that a dispatch of it is in flight. -/
def isInFlight (s : Scheduler) (id : ResourceId) : Bool := (s.stateOf? id).any (·.inFlight)

theorem isInFlight_iff (s : Scheduler) (id : ResourceId) :
    s.isInFlight id = true ↔ ∃ st, s.stateOf? id = some st ∧ st.inFlight = true := by
  unfold isInFlight
  rw [Option.any_eq_true]

theorem inFlight_stored (s : Scheduler) (d : Decision) :
    (s.stored d).any (·.inFlight) = d.inFlight := by
  cases d with
  | enqueue st =>
    simp only [stored, offered, Option.any_some, Decision.inFlight, Decision.state?]
    split <;> rfl
  | _ => rfl

theorem isInFlight_carryOut (s : Scheduler) (id k : ResourceId) (d : Decision) :
    (s.carryOut id d).isInFlight k = if k = id then d.inFlight else s.isInFlight k := by
  unfold isInFlight
  rw [stateOf?_carryOut]
  split
  · exact inFlight_stored s d
  · rfl

/-- A decision that keeps the flag of its identity changes the flag of none. -/
theorem isInFlight_carryOut? (s : Scheduler) (id k : ResourceId) (d? : Option Decision)
    (hd : ∀ d, d? = some d → d.inFlight = s.isInFlight id) :
    (s.carryOut? id d?).isInFlight k = s.isInFlight k := by
  cases d? with
  | none => rfl
  | some d =>
    rw [carryOut?, isInFlight_carryOut]
    split
    · rename_i hk
      rw [hk]
      exact hd d rfl
    · rfl

theorem isInFlight_trigger (s : Scheduler) (id k : ResourceId) (cause : TriggerCause)
    (terminating : Bool) : (s.trigger id cause terminating).isInFlight k = s.isInFlight k := by
  rw [trigger_eq]
  exact isInFlight_carryOut? s id k _ (Decision.onTrigger_inFlight _ cause terminating)

theorem isInFlight_reschedule (s : Scheduler) (id k : ResourceId) (delay : Span) :
    (s.reschedule id delay).isInFlight k = s.isInFlight k := by
  rw [reschedule_eq]
  exact isInFlight_carryOut? s id k _
    fun d hd => (Decision.onReschedule_takes _ delay d hd).inFlight_eq

theorem isInFlight_timerFired (s : Scheduler) (t : ArmedTimer) (k : ResourceId) :
    (s.timerFired t).isInFlight k = s.isInFlight k := by
  rw [timerFired_eq]
  exact isInFlight_carryOut? s t.id k _
    fun d hd => (Decision.onTimer_takes _ t d hd).inFlight_eq

theorem isInFlight_finished (s : Scheduler) (hs : s.Orderly) (id k : ResourceId)
    (summary : DispatchSummary) (hf : s.isInFlight id = true) :
    (s.finished id summary).isInFlight k = if k = id then false else s.isInFlight k := by
  obtain ⟨st, hst, hflight⟩ := (s.isInFlight_iff id).mp hf
  obtain ⟨stats, heq⟩ := finished_eq s id summary st hst
  have hends := Decision.onFinished_ends s.config st summary (hs id st hst).sound hflight
  rw [heq, isInFlight_carryOut, hends.inFlight_eq]
  rfl

theorem isInFlight_run (s s' : Scheduler) (h : s.run = .ok s') (k : ResourceId) :
    s'.isInFlight k = s.isInFlight k := by
  obtain ⟨_, rfl⟩ := run_eq_ok s s' h
  unfold isInFlight
  rw [stateOf?_enqueuePending _ rfl]
  change ((s.stateOf? k).map IdentityState.promoted).any (·.inFlight) = _
  cases s.stateOf? k with
  | none => rfl
  | some st => exact st.inFlight_promoted

theorem isInFlight_ended (s : Scheduler) (k : ResourceId) :
    s.ended.isInFlight k = s.isInFlight k := by
  unfold isInFlight
  rw [stateOf?_ended]
  cases s.stateOf? k <;> rfl

/-- A dispatch begins only where none is in flight, and marks its identity alone. -/
theorem isInFlight_begin? (s s' : Scheduler) (id : ResourceId)
    (request : ReconciliationRequest) (retry : Option RetryInfo)
    (h : s.begin? id = some ((request, retry), s')) (k : ResourceId) :
    s.isInFlight id = false ∧ s'.isInFlight k = if k = id then true else s.isInFlight k := by
  obtain ⟨st, hst, hq, hidle, _, _, rfl⟩ := begin?_eq_some s id request retry s' h
  constructor
  · simp only [isInFlight, hst, Option.any_some, hidle]
  · change ((s.put id st.begun).stateOf? k).any (·.inFlight) = _
    rw [stateOf?_put]
    split <;> rfl

@[simp] theorem serving_carryOut (s : Scheduler) (id : ResourceId) (d : Decision) :
    (s.carryOut id d).serving = s.serving := by
  cases d with
  | enqueue st =>
    simp only [carryOut, enqueue]
    split <;> rfl
  | _ => rfl

@[simp] theorem serving_carryOut? (s : Scheduler) (id : ResourceId) (d? : Option Decision) :
    (s.carryOut? id d?).serving = s.serving := by
  cases d? with
  | none => rfl
  | some d => exact serving_carryOut s id d

theorem serving_finished (s : Scheduler) (id : ResourceId) (summary : DispatchSummary) :
    (s.finished id summary).serving = s.serving := by
  cases hst : s.stateOf? id with
  | none => simp only [finished, hst]
  | some st =>
    obtain ⟨stats, heq⟩ := finished_eq s id summary st hst
    rw [heq, serving_carryOut]

theorem serving_foldl_offer (l : List (ResourceId × IdentityState)) (s : Scheduler) :
    (l.foldl offer s).serving = s.serving := by
  induction l generalizing s with
  | nil => rfl
  | cons e rest ih =>
    rw [List.foldl_cons, ih (s.offer e)]
    unfold offer
    split
    · exact serving_carryOut s e.1 (.enqueue e.2)
    · rfl

theorem Orderly.sound (s : Scheduler) (hs : s.Orderly) (id : ResourceId) :
    ∀ o, s.stateOf? id = some o → o.Sound :=
  fun o ho => (hs id o ho).sound

theorem orderly_trigger (s : Scheduler) (hs : s.Orderly) (id : ResourceId)
    (cause : TriggerCause) (terminating : Bool) : (s.trigger id cause terminating).Orderly := by
  rw [trigger_eq]
  exact orderly_carryOut? s hs id _ (Decision.onTrigger_proper _ cause terminating (hs.sound s id))

theorem orderly_reschedule (s : Scheduler) (hs : s.Orderly) (id : ResourceId) (delay : Span) :
    (s.reschedule id delay).Orderly := by
  rw [reschedule_eq]
  exact orderly_carryOut? s hs id _
    fun d hd => (Decision.onReschedule_takes _ delay d hd).proper (hs.sound s id)

theorem orderly_timerFired (s : Scheduler) (hs : s.Orderly) (t : ArmedTimer) :
    (s.timerFired t).Orderly := by
  rw [timerFired_eq]
  exact orderly_carryOut? s hs t.id _
    fun d hd => (Decision.onTimer_takes _ t d hd).proper (hs.sound s t.id)

theorem orderly_finished (s : Scheduler) (hs : s.Orderly) (id : ResourceId)
    (summary : DispatchSummary) (hf : s.isInFlight id = true) :
    (s.finished id summary).Orderly := by
  obtain ⟨st, hst, hflight⟩ := (s.isInFlight_iff id).mp hf
  obtain ⟨stats, heq⟩ := finished_eq s id summary st hst
  have hends := Decision.onFinished_ends s.config st summary (hs id st hst).sound hflight
  have hcounted : ({ s with stats } : Scheduler).Orderly :=
    fun k st hst => (hs k st hst).mono s _ k st (fun h => h) (fun h => h)
  rw [heq]
  exact orderly_carryOut _ hcounted id _ (hends.proper _)

end Scheduler
end Reconciliation
