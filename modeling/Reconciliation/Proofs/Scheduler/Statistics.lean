import Mathlib.Data.List.Perm.Subperm
import Reconciliation.Proofs.Scheduler.Exhaustion
import Reconciliation.Proofs.Scheduler.Pursuit

/-!
The counts of a scheduler. A dispatch is counted when it begins, when it crashes and when it ends,
and nothing else is counted. The end of a dispatch is a success, a failure, or it is skipped; a
failure counts in at most one class. So over a run the counts are those of the moves, and what has
begun is what has ended and what is in flight.
-/
namespace Reconciliation

namespace DispatchSummary

def isFailure (r : DispatchSummary) : Bool := r.error.isSome

/-- Nothing ran, and nothing failed. -/
def isSkip (r : DispatchSummary) : Bool := r.error.isNone && r.skipped

def isSuccess (r : DispatchSummary) : Bool := r.error.isNone && !r.skipped

def addsFinalizer (r : DispatchSummary) : Bool := r.error.isNone && r.finalizerAdded

def removesFinalizer (r : DispatchSummary) : Bool := r.error.isNone && r.finalizerRemoved

/-- Every end of a dispatch is of one of three kinds. -/
theorem length_eq_countP (l : List DispatchSummary) :
    l.length = l.countP isSuccess + l.countP isFailure + l.countP isSkip := by
  induction l with
  | nil => rfl
  | cons r rest ih =>
    have hkind : 1 = (if r.isSuccess then 1 else 0) + (if r.isFailure then 1 else 0) +
        (if r.isSkip then 1 else 0) := by
      unfold isSuccess isFailure isSkip
      cases r.error <;> cases r.skipped <;> rfl
    rw [List.length_cons, List.countP_cons, List.countP_cons, List.countP_cons]
    omega

end DispatchSummary

namespace SchedulerStats

/-- The failures that are counted in a class of their own. -/
def classified (s : SchedulerStats) : Nat := s.conflicts + s.retriesScheduled + s.retriesExhausted

/-- What the end of a dispatch adds to the counts. The removal of a finalizer is not counted for
an object that was reported gone during the dispatch. -/
structure Books (before after : SchedulerStats) (r : DispatchSummary) (gone : Bool) : Prop where
  dispatched : after.dispatched = before.dispatched
  succeeded : after.succeeded = before.succeeded + if r.isSuccess then 1 else 0
  failed : after.failed = before.failed + if r.isFailure then 1 else 0
  classified : after.classified ≤ before.classified + if r.isFailure then 1 else 0
  panicked : after.panicked = before.panicked
  added : after.finalizersAdded = before.finalizersAdded + if r.addsFinalizer then 1 else 0
  removed : after.finalizersRemoved =
    before.finalizersRemoved + if r.removesFinalizer && !gone then 1 else 0

/-- How a failure is counted beside the count of all failures: in one class or in none. -/
inductive Classes (s : SchedulerStats) : SchedulerStats → Prop
  | unclassed : Classes s s
  | conflict : Classes s { s with conflicts := s.conflicts + 1 }
  | scheduled : Classes s { s with retriesScheduled := s.retriesScheduled + 1 }
  | exhausted : Classes s { s with retriesExhausted := s.retriesExhausted + 1 }

theorem Classes.books {s after : SchedulerStats} {r : DispatchSummary} {e : Error}
    (h : Classes { s with failed := s.failed + 1 } after) (he : r.error = some e) (gone : Bool) :
    Books s after r gone := by
  have hfailure : r.isFailure = true := by rw [DispatchSummary.isFailure, he]; rfl
  have hsuccess : r.isSuccess = false := by rw [DispatchSummary.isSuccess, he]; rfl
  have hadds : r.addsFinalizer = false := by rw [DispatchSummary.addsFinalizer, he]; rfl
  have hremoves : r.removesFinalizer = false := by rw [DispatchSummary.removesFinalizer, he]; rfl
  have hclassified : after.classified ≤ s.classified + 1 := by
    unfold classified
    cases h <;> simp only <;> omega
  cases h <;> exact ⟨rfl, by simp [hsuccess], by simp [hfailure], by simpa [hfailure], rfl,
    by simp [hadds], by simp [hremoves]⟩

/-- The counts agree with the ends of the dispatches so far. A dispatch that has crashed is still
in flight, and its end will be a failure. -/
structure Balanced (s : SchedulerStats) (ended : List DispatchSummary)
    (inFlight crashed : List ResourceId) : Prop where
  dispatched : s.dispatched = ended.length + inFlight.length
  succeeded : s.succeeded = ended.countP (·.isSuccess)
  failed : s.failed = ended.countP (·.isFailure)
  classified : s.classified ≤ s.failed
  panicked : s.panicked ≤ s.failed + crashed.length
  added : s.finalizersAdded = ended.countP (·.addsFinalizer)

section Balanced
variable {s after : SchedulerStats} {ended : List DispatchSummary}
  {inFlight crashed : List ResourceId} {id : ResourceId} {r : DispatchSummary} {gone : Bool}

theorem Balanced.fresh : Balanced {} [] [] [] :=
  ⟨rfl, rfl, rfl, Nat.le_refl _, Nat.le_refl _, rfl⟩

theorem Balanced.begin (h : Balanced s ended inFlight crashed) (id : ResourceId) :
    Balanced { s with dispatched := s.dispatched + 1 } ended (id :: inFlight) crashed :=
  { h with dispatched := congrArg (· + 1) h.dispatched }

theorem Balanced.crash (h : Balanced s ended inFlight crashed) (id : ResourceId) :
    Balanced { s with panicked := s.panicked + 1 } ended inFlight (id :: crashed) :=
  { h with panicked := Nat.succ_le_succ h.panicked }

/-- When a dispatch ends, what it counts as makes up for the one less that is in flight. -/
theorem Balanced.finish (h : Balanced s ended inFlight crashed) (hbooks : Books s after r gone)
    (hmem : id ∈ inFlight) (hpanic : id ∈ crashed → r.isFailure = true) :
    Balanced after (ended ++ [r]) (inFlight.erase id) (crashed.erase id) := by
  have hcount : ∀ p : DispatchSummary → Bool,
      (ended ++ [r]).countP p = ended.countP p + if p r then 1 else 0 := fun p => by
    rw [List.countP_append, List.countP_singleton]
  have hfailed := hbooks.failed
  constructor
  case dispatched =>
    have hpos := List.length_pos_of_mem hmem
    have hbefore := h.dispatched
    rw [List.length_append, List.length_singleton, List.length_erase_of_mem hmem,
      hbooks.dispatched]
    omega
  case succeeded => rw [hcount, hbooks.succeeded, h.succeeded]
  case failed => rw [hcount, hfailed, h.failed]
  case classified =>
    have hbefore := h.classified
    have hafter := hbooks.classified
    omega
  case panicked =>
    have hbefore := h.panicked
    have hafter := hbooks.panicked
    -- The crash was counted when it happened; now its failure makes up for it.
    by_cases hc : id ∈ crashed
    · have hpos := List.length_pos_of_mem hc
      rw [hpanic hc, if_pos rfl] at hfailed
      rw [List.length_erase_of_mem hc]
      omega
    · rw [List.erase_of_not_mem hc]
      omega
  case added => rw [hcount, hbooks.added, h.added]

end Balanced

end SchedulerStats

namespace Scheduler
variable (s : Scheduler) (id : ResourceId) (st : IdentityState)

theorem stats_carryOut (d : Decision) : (s.carryOut id d).stats = s.stats := by
  obtain ⟨_, _, _, heq⟩ := s.carryOut_frame id d
  rw [heq]

/-- A transient failure counts in one class at most. -/
theorem classes_afterTransient (e : Error) :
    s.stats.Classes (s.afterTransient id st e).stats := by
  unfold afterTransient
  cases s.config.retry with
  | none =>
    dsimp only
    split
    · exact (s.stats_carryOut id (.enqueue _)) ▸ .unclassed
    · exact .unclassed
  | some policy =>
    dsimp only
    split
    · exact (s.stats_carryOut id (.enqueue _)) ▸ .unclassed
    · generalize (st.retry.getD { policy := policy }).nextDelay = next
      obtain ⟨delay?, execution⟩ := next
      cases delay? with
      | some delay => exact .scheduled
      | none => cases s.config.maxInterval <;> exact .exhausted

/-- A failure is booked as one. -/
theorem books_afterFailure (e : Error) (summary : DispatchSummary) (he : summary.error = some e)
    (gone : Bool) : s.stats.Books (s.afterFailure id st e summary).stats summary gone := by
  refine SchedulerStats.Classes.books ?_ he gone
  unfold afterFailure
  dsimp only
  split
  · exact .unclassed
  · cases classOf e summary.noRetry with
    | conflict =>
      dsimp only [afterConflict]
      rw [← carryOut, stats_carryOut]
      exact .conflict
    | terminal =>
      dsimp only
      rw [afterTerminal_eq, stats_carryOut]
      exact .unclassed
    | transient =>
      exact classes_afterTransient { s with stats.failed := s.stats.failed + 1 } id st e

/-- A success is counted at once; a removal only where the object is not known to be gone. -/
theorem stats_afterSuccess (summary : DispatchSummary) :
    (s.afterSuccess id st summary).stats =
      { (s.countSuccess summary).stats with
        finalizersRemoved := s.stats.finalizersRemoved +
          if summary.finalizerRemoved && !st.isDeleted then 1 else 0 } := by
  unfold afterSuccess
  dsimp only
  split
  · rename_i hdeleted
    change st.isDeleted = true at hdeleted
    rw [hdeleted, Bool.not_true, Bool.and_false]
    rfl
  rename_i hkept
  change ¬st.isDeleted = true at hkept
  rw [Bool.eq_false_iff.mpr hkept, Bool.not_false, Bool.and_true]
  split
  · rfl
  split
  · exact stats_carryOut _ id (.enqueue _)
  split
  · rfl
  · rw [afterIdleSuccess_eq]
    exact stats_carryOut _ id _

/-- A success is booked as one, with the finalizer it has added or removed. -/
theorem books_afterSuccess (summary : DispatchSummary) (hn : summary.error = none) :
    s.stats.Books (s.afterSuccess id st summary).stats summary st.isDeleted := by
  have hfailure : summary.isFailure = false := by rw [DispatchSummary.isFailure, hn]; rfl
  have hsuccess : summary.isSuccess = !summary.skipped := by
    rw [DispatchSummary.isSuccess, hn]; rfl
  have hadds : summary.addsFinalizer = summary.finalizerAdded := by
    rw [DispatchSummary.addsFinalizer, hn]; rfl
  have hremoves : summary.removesFinalizer = summary.finalizerRemoved := by
    rw [DispatchSummary.removesFinalizer, hn]; rfl
  rw [stats_afterSuccess]
  constructor <;> simp only [hfailure, hsuccess, hadds, hremoves, countSuccess]
  · cases summary.skipped <;> rfl
  · rfl
  · exact Nat.le_refl _

/-- The end of a dispatch in flight is always counted. -/
theorem books_finished (summary : DispatchSummary) (hst : s.stateOf? id = some st) :
    s.stats.Books (s.finished id summary).stats summary st.isDeleted := by
  simp only [finished, hst]
  cases he : summary.error with
  | some e => exact s.books_afterFailure id _ e summary he _
  | none => exact s.books_afterSuccess id { st with inFlight := false } summary he

end Scheduler

/-- The summary with which a dispatch ends in a move. -/
def Move.ended : Move → Option DispatchSummary
  | .finish _ summary => some summary
  | _ => none

namespace Activity
variable {c : SchedulerConfig} {a b : Activity} {m : Move} {ms : List Move} {id : ResourceId}

/-- The summaries with which dispatches have ended in a run. -/
def reports (ms : List Move) : List DispatchSummary := ms.filterMap Move.ended

theorem reports_concat (ms : List Move) (hm : m.ended = none) :
    reports (ms ++ [m]) = reports ms := by
  have hlast : [m].filterMap Move.ended = [] := List.filterMap_cons_none hm
  unfold reports
  rw [List.filterMap_append, hlast, List.append_nil]

theorem reports_concat_finish (ms : List Move) (id : ResourceId) (summary : DispatchSummary) :
    reports (ms ++ [.finish id summary]) = reports ms ++ [summary] :=
  List.filterMap_append

/-- What a step counts, and what it does to the dispatches in flight. -/
inductive Tallies (a b : Activity) : Move → Prop
  | begin (request : ReconciliationRequest) (retry : Option RetryInfo)
      (hstats : b.scheduler.stats =
        { a.scheduler.stats with dispatched := a.scheduler.stats.dispatched + 1 })
      (hflight : b.inFlight = request.id :: a.inFlight) (hcrashed : b.crashed = a.crashed) :
      Tallies a b (.begin request retry)
  | crash (id : ResourceId)
      (hstats : b.scheduler.stats =
        { a.scheduler.stats with panicked := a.scheduler.stats.panicked + 1 })
      (hflight : b.inFlight = a.inFlight) (hcrashed : b.crashed = id :: a.crashed) :
      Tallies a b (.crash id)
  | finish (id : ResourceId) (summary : DispatchSummary)
      (hbooks : a.scheduler.stats.Books b.scheduler.stats summary
        (a.scheduler.stateOf id).isDeleted)
      (hmem : id ∈ a.inFlight) (hflight : b.inFlight = a.inFlight.erase id)
      (hpanic : id ∈ a.crashed → summary.isFailure = true)
      (hcrashed : b.crashed = a.crashed.erase id) : Tallies a b (.finish id summary)
  | silent (m : Move) (hm : m.ended = none)
      (hstats : b.scheduler.stats = a.scheduler.stats) (hflight : b.inFlight = a.inFlight)
      (hcrashed : b.crashed = a.crashed) : Tallies a b m

/-- Each step counts what it does, and nothing else. -/
theorem Step.tallies (hstep : Step a m b) (hc : Coherent c a) : Tallies a b m := by
  cases hstep with
  | submit id cause terminating =>
    obtain ⟨_, _, _, heq⟩ := a.scheduler.trigger_frame id cause terminating
    exact .silent _ rfl (by rw [heq]) rfl rfl
  | reschedule id delay =>
    obtain ⟨_, _, _, heq⟩ := a.scheduler.reschedule_frame id delay
    exact .silent _ rfl (by rw [heq]) rfl rfl
  | fire t =>
    obtain ⟨_, _, _, heq⟩ := a.scheduler.timerFired_frame t
    exact .silent _ rfl (by rw [heq]) rfl rfl
  | run s hs =>
    obtain ⟨_, _, rfl⟩ := a.scheduler.run_frame s hs
    exact .silent _ rfl rfl rfl rfl
  | begin id rest request retry s hl hr hb =>
    obtain ⟨_, _, _, _, rfl, _, rfl⟩ := Scheduler.begin?_eq_some _ id request retry s hb
    exact .begin _ retry rfl rfl rfl
  | crash id hf hcr => exact .crash id rfl rfl rfl
  | finish id summary hf hcr =>
    obtain ⟨st, hst, _⟩ := (hc.mem_inFlight_iff id).mp hf
    have hbooks := a.scheduler.books_finished id st summary hst
    refine .finish id summary ?_ hf rfl (fun hmem => by rw [hcr hmem]; rfl) rfl
    rwa [Scheduler.stateOf, hst]
  | refuse | stop | takeWorker | discard | leave | conclude => exact .silent _ rfl rfl rfl rfl

/-- The balance of a run is kept by a step that counts what it does. -/
theorem Tallies.balanced (htallies : Tallies a b m)
    (h : a.scheduler.stats.Balanced (reports ms) a.inFlight a.crashed) :
    b.scheduler.stats.Balanced (reports (ms ++ [m])) b.inFlight b.crashed := by
  cases htallies with
  | begin request retry hstats hflight hcrashed =>
    rw [reports_concat ms rfl, hstats, hflight, hcrashed]
    exact h.begin request.id
  | crash id hstats hflight hcrashed =>
    rw [reports_concat ms rfl, hstats, hflight, hcrashed]
    exact h.crash id
  | finish id summary hbooks hmem hflight hpanic hcrashed =>
    rw [reports_concat_finish, hflight, hcrashed]
    exact h.finish hbooks hmem hpanic
  | silent _ hm hstats hflight hcrashed =>
    rw [reports_concat ms hm, hstats, hflight, hcrashed]
    exact h

theorem Trace.balanced (h : Trace (fresh c) ms a) :
    a.scheduler.stats.Balanced (reports ms) a.inFlight a.crashed :=
  h.history (P := fun ms a => a.scheduler.stats.Balanced (reports ms) a.inFlight a.crashed)
    (fun ms _ _ _ htrace hstep =>
      (hstep.tallies (Reachable.coherent ⟨ms, htrace⟩)).balanced)
    .fresh

/-- Every dispatch that has begun is in flight or has ended, and each end is counted: it is a
success or a failure, or it was skipped. No failure counts in two classes, and a crash is a failure
or about to be one. The state of an identity stays while its dispatch is in flight. -/
theorem Trace.dispatches_conserved (h : Trace (fresh c) ms a) :
    a.scheduler.stats.dispatched = a.scheduler.stats.succeeded + a.scheduler.stats.failed +
      (reports ms).countP (·.isSkip) + a.inFlight.length ∧
    a.scheduler.stats.conflicts + a.scheduler.stats.retriesScheduled +
      a.scheduler.stats.retriesExhausted ≤ a.scheduler.stats.failed ∧
    a.scheduler.stats.panicked ≤ a.scheduler.stats.failed + a.inFlight.length ∧
    a.scheduler.stats.succeeded = (reports ms).countP (·.isSuccess) ∧
    a.scheduler.stats.failed = (reports ms).countP (·.isFailure) ∧
    ∀ id ∈ a.inFlight, ∃ st, a.scheduler.stateOf? id = some st ∧ st.inFlight = true := by
  have hreachable : Reachable c a := ⟨ms, h⟩
  have hbalanced := h.balanced
  refine ⟨?_, hbalanced.classified, ?_, hbalanced.succeeded, hbalanced.failed,
    fun id hid => (hreachable.coherent.mem_inFlight_iff id).mp hid⟩
  · rw [hbalanced.dispatched, hbalanced.succeeded, hbalanced.failed,
      DispatchSummary.length_eq_countP]
  · have hcrashing := hreachable.crashing
    have hle := (hcrashing.distinct.subperm hcrashing.inFlight).length_le
    have hpanicked := hbalanced.panicked
    omega

/-- The dispatch of one identity meets a conflict, and the next one crashes; meanwhile the dispatch
of another identity finds nothing to run for. -/
def mixedEnds (id other : ResourceId) : List Move :=
  [.run, .submit id .added false, .submit other .added false,
    .takeWorker, .begin ⟨id, [.added]⟩ none, .takeWorker, .begin ⟨other, [.added]⟩ none,
    .finish id (.failed (.conflict id ⟨1⟩ ⟨2⟩)), .takeWorker, .begin ⟨id, [.retry]⟩ none,
    .finish other .skip, .crash id]

/-- Of three dispatches one has failed, one was skipped and one is in flight and has crashed. -/
theorem dispatches_conserved_mixedEnds :
    ∃ a, Trace (fresh {}) (mixedEnds ⟨"App", none, "app"⟩ ⟨"App", none, "web"⟩) a ∧
      a.scheduler.stats.dispatched = 3 ∧ a.scheduler.stats.failed = 1 ∧
      a.scheduler.stats.conflicts = 1 ∧ a.scheduler.stats.panicked = 1 ∧
      a.scheduler.isInFlight ⟨"App", none, "app"⟩ = true := by
  let id : ResourceId := ⟨"App", none, "app"⟩
  let ms := mixedEnds id ⟨"App", none, "web"⟩
  have hrun : ((fresh {}).replay? ms).any (fun a =>
      a.scheduler.stats.conflicts = 1 ∧ a.scheduler.stats.panicked = 1 ∧ a.inFlight = [id]) =
        true := by
    decide
  have hreports : (reports ms).countP (·.isFailure) = 1 ∧
      (reports ms).countP (·.isSuccess) = 0 ∧ (reports ms).countP (·.isSkip) = 1 := by
    decide
  obtain ⟨a, hreplay, hstate⟩ := (Option.any_eq_true _ _).mp hrun
  obtain ⟨hconflicts, hpanicked, hflight⟩ := of_decide_eq_true hstate
  have htrace := replay?_sound _ a ms hreplay
  obtain ⟨hdispatched, _, _, hsucceeded, hfailed, hstates⟩ := htrace.dispatches_conserved
  rw [hreports.1] at hfailed
  rw [hreports.2.1] at hsucceeded
  rw [hsucceeded, hfailed, hreports.2.2, hflight] at hdispatched
  have hid := hstates id (by rw [hflight]; exact List.mem_singleton_self id)
  exact ⟨a, htrace, hdispatched, hfailed, hconflicts, hpanicked,
    (a.scheduler.isInFlight_iff id).mpr hid⟩

end Activity
end Reconciliation
