import Reconciliation.Proofs.Scheduler.Deletion
import Reconciliation.Proofs.Scheduler.Finality
import Reconciliation.Proofs.Scheduler.Statistics

/-!
How finalizers are counted. Each one that is added is counted when its dispatch ends. The removal
of a finalizer lets the object go, and the scheduler may hear of that before the dispatch ends. The
end then only drops the state of the identity, and the removal is not counted.
-/
namespace Reconciliation

/-- Whether the object of a dispatch in flight was reported gone, given that it was before a move
or was not. -/
def Move.leavesGone (id : ResourceId) (gone : Bool) : Move → Bool
  | .begin request _ => request.id ≠ id && gone
  | .submit k .deleted _ => k = id || gone
  | _ => gone

/-- The object of the identity was reported gone after its latest dispatch began. The latest move
comes first. -/
def goneMeanwhile (id : ResourceId) : List Move → Bool
  | [] => false
  | m :: before => m.leavesGone id (goneMeanwhile id before)

/-- The number of dispatches that removed the finalizer of an object that was reported gone before
their end. The latest move comes first. -/
def overtakenRemovals : List Move → Nat
  | [] => 0
  | .finish id summary :: before =>
    overtakenRemovals before + if summary.removesFinalizer && goneMeanwhile id before then 1 else 0
  | _ :: before => overtakenRemovals before

namespace Decision

/-- A trigger of an identity whose object is gone changes nothing. -/
theorem onTrigger_of_deleted {old : Option IdentityState} (h : (old.getD {}).event = .deleted)
    (cause : TriggerCause) (hc : cause ≠ .deleted) (terminating : Bool) :
    onTrigger old cause terminating = some (.keep (old.getD {})) := by
  have hignores : ¬(old.getD {}).acceptsEvents = true := by
    rw [IdentityState.acceptsEvents_iff, h]
    exact nofun
  have hkept : ¬(old.getD {}).event = .released := by
    rw [h]
    exact nofun
  rw [onTrigger, if_neg hc]
  dsimp only
  rw [if_neg hkept, record, if_neg hignores]

theorem onTimer_of_deleted {old : Option IdentityState} (h : (old.getD {}).event = .deleted)
    (t : ArmedTimer) (d : Decision) (hd : onTimer old t = some d) : d.event = .deleted := by
  obtain ⟨st, rfl, hfires⟩ := Option.bind_eq_some_iff.mp hd
  have hignores : ¬st.cancelTimer.acceptsEvents = true := by
    rw [IdentityState.acceptsEvents_iff, show st.cancelTimer.event = .deleted from h]
    exact nofun
  split at hfires
  · obtain rfl := Option.some.inj hfires
    rw [if_neg hignores]
    exact h
  · cases hfires

end Decision

/-- A change of all states that touches neither marks nor dispatches. -/
theorem IdentityState.isDeleted_map {f : IdentityState → IdentityState}
    (hevent : ∀ st, (f st).event = st.event) (hflight : ∀ st, (f st).inFlight = st.inFlight)
    {old : Option IdentityState} {gone : Bool}
    (hgone : old.any (·.inFlight) = true → (old.getD {}).isDeleted = gone)
    (hmapped : (old.map f).any (·.inFlight) = true) :
    ((old.map f).getD {}).isDeleted = gone := by
  have hbefore : old.any (·.inFlight) = true := by
    cases old with
    | none => exact hmapped
    | some st => exact (hflight st).symm.trans hmapped
  rw [← hgone hbefore, isDeleted, Scheduler.event_getD_map f hevent]
  rfl

namespace Activity
variable {c : SchedulerConfig} {a b : Activity} {m : Move} {ms : List Move} {id : ResourceId}

/-- A decision after which a dispatch is in flight keeps the mark of a deletion, and only the report
of a deletion sets it. -/
theorem Decides.deleted_iff {config : SchedulerConfig} {old : Option IdentityState} {d : Decision}
    (hd : Decides config id old m d) (hold : ∀ o, old = some o → o.Sound)
    (hflight : d.inFlight = true) {gone : Bool}
    (hgone : old.any (·.inFlight) = true → (old.getD {}).isDeleted = gone) :
    d.event = .deleted ↔ m.leavesGone id gone = true := by
  -- Where the identity was in flight before, it bears the mark that was there; only a dispatch that
  -- begins comes without one.
  cases hd with
  | submit cause terminating _ hd =>
    have hmark := hgone (Decision.onTrigger_inFlight old cause terminating d hd ▸ hflight)
    by_cases hc : cause = .deleted
    · subst hc
      obtain ⟨st, _, rfl⟩ := Option.map_eq_some_iff.mp hd
      rw [Decision.onDeleted_inFlight] at hflight
      refine iff_of_true ?_ (by simp [Move.leavesGone])
      rw [Decision.onDeleted, if_pos hflight]
      rfl
    · have hsame : Move.leavesGone id gone (.submit id cause terminating) = gone := by
        cases cause with
        | deleted => exact absurd rfl hc
        | _ => rfl
      rw [hsame, ← hmark, IdentityState.isDeleted_iff]
      refine ⟨(Decision.onTrigger_takes old cause terminating hc d hd).deleted_before,
        fun h => ?_⟩
      rw [Decision.onTrigger_of_deleted h cause hc] at hd
      obtain rfl := Option.some.inj hd
      exact h
  | reschedule delay _ hd =>
    have htakes := Decision.onReschedule_takes old delay d hd
    obtain ⟨_, rfl⟩ := Decision.onReschedule_eq_some old delay d hd
    change (old.getD {}).event = .deleted ↔ gone = true
    rw [← hgone (htakes.inFlight_eq ▸ hflight), IdentityState.isDeleted_iff]
  | fire t _ _ hd =>
    have htakes := Decision.onTimer_takes old t d hd
    change d.event = .deleted ↔ gone = true
    rw [← hgone (htakes.inFlight_eq ▸ hflight), IdentityState.isDeleted_iff]
    exact ⟨htakes.deleted_before, fun h => Decision.onTimer_of_deleted h t d hd⟩
  | begin st hst hq _ request hrequest =>
    have hpending := (hold st hst).queued_pending hq
    refine iff_of_false (fun h => ?_) (by simp [Move.leavesGone, hrequest])
    change st.begun.event = .deleted at h
    simp [IdentityState.begun, IdentityState.hasEvent, hpending] at h
  | finish st hst hf summary =>
    have hends := Decision.onFinished_ends config st summary (hold st hst) hf
    cases hends.inFlight_eq.symm.trans hflight

/-- A move that decides nothing about an identity in flight reports no deletion of it. -/
theorem Step.leavesGone_of_undecided (hstep : Step a m b) (hflight : a.scheduler.isInFlight id)
    (hnone : ∀ d, ¬Decides a.scheduler.config id (a.scheduler.stateOf? id) m d) (gone : Bool) :
    m.leavesGone id gone = gone := by
  cases hstep with
  | submit k cause terminating =>
    cases cause with
    | deleted =>
      have hk : k ≠ id := by
        rintro rfl
        obtain ⟨st, hst, _⟩ := (a.scheduler.isInFlight_iff k).mp hflight
        exact hnone _ (.submit .deleted terminating (Decision.onDeleted st) (by rw [hst]; rfl))
      simp [Move.leavesGone, hk]
    | _ => rfl
  | begin k rest request retry s _ _ hb =>
    have hrequest : request.id ≠ id := by
      rintro rfl
      obtain ⟨st, hst, hq, hidle, hrequest, _⟩ := Scheduler.begin?_eq_some _ k request retry s hb
      subst hrequest
      exact hnone _ (.begin st hst hq hidle _ rfl retry)
    simp [Move.leavesGone, hrequest]
  | _ => rfl

/-- While a dispatch is in flight, its identity bears the mark of a deletion if and only if the
object was reported gone since the dispatch began. -/
theorem Step.isDeleted_eq (hstep : Step a m b) (hc : Coherent c a) {gone : Bool}
    (hgone : a.scheduler.isInFlight id = true → (a.scheduler.stateOf id).isDeleted = gone)
    (hflight : b.scheduler.isInFlight id = true) :
    (b.scheduler.stateOf id).isDeleted = m.leavesGone id gone := by
  have hbears := hstep.bears hc id
  unfold Scheduler.isInFlight at hflight hgone
  unfold Scheduler.stateOf at hgone ⊢
  cases hbears with
  | aside hnone _ hstate =>
    rw [hstate] at hflight ⊢
    rw [hstep.leavesGone_of_undecided hflight hnone, hgone hflight]
  | decided d hd hstate =>
    rw [hstate, Scheduler.inFlight_stored] at hflight
    rw [hstate, Bool.eq_iff_iff, IdentityState.isDeleted_iff, Scheduler.event_stored]
    exact hd.deleted_iff (fun st hst => (hc.orderly id st hst).sound) hflight hgone
  | promoted hm hstate =>
    subst hm
    rw [hstate] at hflight ⊢
    exact IdentityState.isDeleted_map IdentityState.event_promoted
      IdentityState.inFlight_promoted hgone hflight
  | concluded hm hstate =>
    subst hm
    rw [hstate] at hflight ⊢
    exact IdentityState.isDeleted_map (f := IdentityState.cancelTimer) (fun _ => rfl)
      (fun _ => rfl) hgone hflight

/-- In every run the mark of an identity in flight tells whether its object was reported gone
meanwhile. -/
theorem Trace.isDeleted_eq (h : Trace (fresh c) ms a) (hflight : id ∈ a.inFlight) :
    (a.scheduler.stateOf id).isDeleted = goneMeanwhile id ms.reverse := by
  have hmarks := h.history (P := fun ms a => a.scheduler.isInFlight id = true →
      (a.scheduler.stateOf id).isDeleted = goneMeanwhile id ms.reverse)
    (fun ms a m b htrace hstep hgone hflight => by
      have hcoherent : Coherent c a := Reachable.coherent ⟨ms, htrace⟩
      rw [List.reverse_concat]
      exact hstep.isDeleted_eq hcoherent hgone hflight)
    (fun hflight => by cases hflight)
  exact hmarks ((Reachable.coherent ⟨ms, h⟩ : Coherent c a).tracked id |>.mp hflight)

theorem overtakenRemovals_cons (hm : m.ended = none) (before : List Move) :
    overtakenRemovals (m :: before) = overtakenRemovals before := by
  cases m with
  | finish => cases hm
  | _ => rfl

/-- What a move does to the count of removals, its dispatch having been overtaken or not. -/
theorem Tallies.removals (htallies : Tallies a b m) {before : List Move}
    (hgone : ∀ id ∈ a.inFlight, (a.scheduler.stateOf id).isDeleted = goneMeanwhile id before)
    (h : a.scheduler.stats.finalizersRemoved + overtakenRemovals before =
      (reports ms).countP (·.removesFinalizer)) :
    b.scheduler.stats.finalizersRemoved + overtakenRemovals (m :: before) =
      (reports (ms ++ [m])).countP (·.removesFinalizer) := by
  cases htallies with
  | begin request retry hstats =>
    rw [reports_concat ms rfl, hstats, ← h]
    rfl
  | crash id hstats =>
    rw [reports_concat ms rfl, hstats, ← h]
    rfl
  | silent _ hm hstats =>
    rw [reports_concat ms hm, hstats, overtakenRemovals_cons hm, h]
  | finish id summary hbooks hmem =>
    rw [reports_concat_finish, List.countP_append, List.countP_singleton, ← h, hbooks.removed,
      hgone id hmem, overtakenRemovals]
    cases summary.removesFinalizer <;> cases goneMeanwhile id before <;> simp <;> omega

/-- Every finalizer that was added is counted, and every one that was removed, unless the object
was reported gone before the dispatch that removed the finalizer ended. -/
theorem Trace.finalizers_counted (h : Trace (fresh c) ms a) :
    a.scheduler.stats.finalizersAdded = (reports ms).countP (·.addsFinalizer) ∧
    a.scheduler.stats.finalizersRemoved + overtakenRemovals ms.reverse =
      (reports ms).countP (·.removesFinalizer) := by
  refine ⟨h.balanced.added, ?_⟩
  refine h.history (P := fun ms a => a.scheduler.stats.finalizersRemoved +
    overtakenRemovals ms.reverse = (reports ms).countP (·.removesFinalizer)) ?_ rfl
  intro ms a m b htrace hstep hbefore
  rw [List.reverse_concat]
  exact (hstep.tallies (Reachable.coherent ⟨ms, htrace⟩)).removals
    (fun id hid => htrace.isDeleted_eq hid) hbefore

/-- A finalizer is added to a new object and removed once the object is to go; something may happen
before the removal is reported. -/
def finalization (id : ResourceId) (meanwhile : List Move) : List Move :=
  [.run, .submit id .added false, .takeWorker, .begin ⟨id, [.added]⟩ none,
    .finish id { finalizerAdded := true, reschedule := some .zero },
    .submit id .updated true, .takeWorker, .begin ⟨id, [.rescheduled, .updated]⟩ none] ++
  meanwhile ++ [.finish id (.removedFinalizer none)]

/-- Nothing happens meanwhile, and both are counted. -/
theorem finalizers_counted_finalization :
    ∃ a, Trace (fresh {}) (finalization ⟨"App", none, "app"⟩ []) a ∧
      a.scheduler.stats.finalizersAdded = 1 ∧ a.scheduler.stats.finalizersRemoved = 1 := by
  let ms := finalization ⟨"App", none, "app"⟩ []
  have hrun : ((fresh {}).replay? ms).isSome = true := by decide
  have hreports : (reports ms).countP (·.addsFinalizer) = 1 ∧
      (reports ms).countP (·.removesFinalizer) = 1 ∧ overtakenRemovals ms.reverse = 0 := by
    decide
  obtain ⟨hadds, hremoves, hovertaken⟩ := hreports
  obtain ⟨a, hreplay⟩ := Option.isSome_iff_exists.mp hrun
  have htrace := replay?_sound _ a ms hreplay
  obtain ⟨hadded, hremoved⟩ := htrace.finalizers_counted
  exact ⟨a, htrace, hadded.trans hadds, by rwa [hovertaken, hremoves] at hremoved⟩

/-- The object goes as soon as its finalizer is removed. The scheduler hears of that before the
dispatch ends, and does not count the removal. -/
theorem removal_overtaken_by_deletion :
    ∃ a, Trace (fresh {}) (finalization ⟨"App", none, "app"⟩
        [.submit ⟨"App", none, "app"⟩ .deleted false]) a ∧
      a.scheduler.stats.finalizersRemoved = 0 ∧
      (reports (finalization ⟨"App", none, "app"⟩
        [.submit ⟨"App", none, "app"⟩ .deleted false])).countP (·.removesFinalizer) = 1 := by
  let ms := finalization ⟨"App", none, "app"⟩ [.submit ⟨"App", none, "app"⟩ .deleted false]
  have hrun : ((fresh {}).replay? ms).any (fun a =>
      a.scheduler.stats.finalizersRemoved = 0) = true := by
    decide
  obtain ⟨a, hreplay, hstats⟩ := (Option.any_eq_true _ _).mp hrun
  exact ⟨a, replay?_sound _ a ms hreplay, of_decide_eq_true hstats, by decide⟩

end Activity
end Reconciliation
