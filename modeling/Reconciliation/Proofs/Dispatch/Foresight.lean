import Reconciliation.Proofs.Dispatch.Licence
import Reconciliation.Proofs.Scheduler.Foresight

/-!
What a dispatch tells of the retries. All its calls pass on the picture of the retries that was
taken when it began. Where the picture shows that no attempt is left, no timer for a retry
follows a failure, and where it does not, one does.
-/
namespace Reconciliation

/-- The circumstances that a call passes on to the reconciler or to the nodes. -/
def DispatchCall.context? {I : Interface} : DispatchCall I → Option Context
  | primary (.observe _) | primary (.patch ..) => none
  | primary (.reconcile _ ctx) | primary (.cleanup _ ctx) | primary (.errorStatus _ ctx _) =>
    some ctx
  | pass _ _ _ ctx => some ctx

namespace Dispatcher
variable {I : Interface}

/-- The call passes on these retries, if it passes on any. -/
def Shows (retry : Option RetryInfo) (c : DispatchCall I) : Prop :=
  ∀ ctx, c.context? = some ctx → ctx.retry = retry

/-- All calls from now on pass on these retries. -/
abbrev Tells (retry : Option RetryInfo) (past : Past I)
    (t : Dispatching I DispatchSummary) : Prop :=
  t.Obeys (fun _ _ => True) (fun _ c => Shows retry c) (fun _ _ => True) past

theorem shows_of_context {retry : Option RetryInfo} {c : DispatchCall I} {ctx : Context}
    (hc : c.context? = some ctx) (hctx : ctx.retry = retry) : Shows retry c := by
  rintro ctx' hctx'
  obtain rfl := Option.some.inj (hc.symm.trans hctx')
  exact hctx

section
variable (d : Dispatcher I) (retry : Option RetryInfo) (past : Past I) (o : ManagedObject)

theorem write_shows (p : ObjectPatch) :
    Shows retry (.primary (.patch o.id o.version p) : DispatchCall I) := nofun

theorem applyUpdate_tells (verdict : ReconcileVerdict) (readiness : Option Span) :
    Tells retry past (applyUpdate o verdict readiness : Dispatching I DispatchSummary) := by
  unfold applyUpdate
  dsimp only
  cases patchFor o verdict.update with
  | none => trivial
  | some p =>
    refine ⟨write_shows retry o p, fun r _ => ?_⟩
    cases r <;> trivial

variable (ctx : Context) (hctx : ctx.retry = retry)
include hctx

theorem handleError_tells (e : Error) :
    Tells retry past (handleError o ctx e : Dispatching I DispatchSummary) := by
  refine ⟨shows_of_context rfl hctx, fun (decision : FailureVerdict) _ => ?_⟩
  simp only [Action.bind]
  cases decision.status with
  | none => trivial
  | some status =>
    refine ⟨write_shows retry o _, fun r _ => ?_⟩
    cases r <;> trivial

theorem conclude_tells (readiness : Option Span) (outcome : Except Error ReconcileVerdict) :
    Tells retry past (conclude o ctx readiness outcome : Dispatching I DispatchSummary) := by
  cases outcome with
  | ok verdict => exact applyUpdate_tells retry past o verdict readiness
  | error e =>
    unfold conclude
    dsimp only
    split
    · trivial
    · exact handleError_tells retry past o ctx hctx e

/-- Every call of a reconcile passes on the picture of the retries. -/
theorem reconcile_tells : Tells retry past (d.reconcile o ctx) := by
  unfold reconcile
  cases d.workflow with
  | none =>
    refine ⟨shows_of_context rfl hctx, fun r _ => ?_⟩
    exact conclude_tells retry _ o ctx hctx none r
  | some w =>
    refine ⟨shows_of_context rfl hctx, fun (r : PassResult) _ => ?_⟩
    simp only [Action.bind]
    cases r.toExcept with
    | error e => exact conclude_tells retry _ o ctx hctx none (.error e)
    | ok r =>
      refine ⟨shows_of_context rfl hctx, fun verdict _ => ?_⟩
      exact conclude_tells retry _ o { ctx with passResult := some r } hctx _ verdict

theorem reconcileActive_tells : Tells retry past (d.reconcileActive o ctx) := by
  unfold reconcileActive
  cases d.missingFinalizer? o with
  | some f =>
    refine ⟨write_shows retry o _, fun r _ => ?_⟩
    cases r <;> trivial
  | none => exact d.reconcile_tells retry past o ctx hctx

theorem release_tells : Tells retry past (d.release o ctx) := by
  refine ⟨shows_of_context rfl hctx, fun (verdict : Except Error CleanupVerdict) _ => ?_⟩
  simp only [Action.bind]
  rcases verdict with e | (_ | delay)
  · trivial
  · cases d.finalizer with
    | none => trivial
    | some f =>
      refine ⟨write_shows retry o _, fun (r : Except Error ManagedObject) _ => ?_⟩
      simp only [Action.bind]
      cases ignoreNotFound r <;> trivial
  · trivial

/-- So does every call of a cleanup. -/
theorem cleanupTerminating_tells : Tells retry past (d.cleanupTerminating o ctx) := by
  unfold cleanupTerminating
  cases d.missingFinalizer? o with
  | some f => trivial
  | none =>
    dsimp only
    unfold cleanup
    cases d.workflow with
    | none => exact d.release_tells retry past o ctx hctx
    | some w =>
      refine ⟨shows_of_context rfl hctx, fun (r : PassResult) _ => ?_⟩
      simp only [Action.bind]
      cases r.toExcept with
      | error e => trivial
      | ok r =>
        dsimp only
        split
        · exact d.release_tells retry _ o { ctx with passResult := some r } hctx
        · trivial

end

/-- Every call of a dispatch tells the retries as they were when the dispatch began. -/
theorem dispatch_tells (d : Dispatcher I) (request : ReconciliationRequest)
    (retry : Option RetryInfo) : Tells retry [] (d.dispatch request retry) := by
  refine ⟨nofun, fun (found : Option ManagedObject) _ => ?_⟩
  simp only [Action.bind, List.nil_append]
  cases found with
  | none => trivial
  | some o =>
    dsimp only
    split
    · exact d.cleanupTerminating_tells retry _ o _ rfl
    · exact d.reconcileActive_tells retry _ o _ rfl

end Dispatcher

namespace Activity
variable {I : Interface} {c : SchedulerConfig} {a b b' d : Activity}

/-- A call of the dispatch passes on these circumstances, after some answers to the calls before
it. -/
def SeenBy (dispatcher : Dispatcher I) (request : ReconciliationRequest)
    (retry : Option RetryInfo) (ctx : Context) : Prop :=
  ∃ past call k, (dispatcher.dispatch request retry).Leads (fun _ _ => True) past (.call call k) ∧
    call.context? = some ctx

theorem SeenBy.retry_eq {dispatcher : Dispatcher I} {request : ReconciliationRequest}
    {retry : Option RetryInfo} {ctx : Context} (h : SeenBy dispatcher request retry ctx) :
    ctx.retry = retry := by
  obtain ⟨past, call, k, hleads, hctx⟩ := h
  exact (hleads.obeys (dispatcher.dispatch_tells request retry)).1 ctx hctx

/-- What a dispatch is told of its retries comes true. Whether it is told that no attempt is left
is whether its failure for a transient reason, with no trigger in between, is followed by no
timer for a retry; unless it is told nothing at all by a policy that has no retries. With retries
switched off it is told nothing. -/
theorem Reachable.last_attempt_foretold (h : Reachable c a) (request : ReconciliationRequest)
    (retry : Option RetryInfo) (hbegin : Step a (.begin request retry) b)
    (hpasses : Passes request.id b b') (summary : DispatchSummary)
    (hfails : FailsTransiently request.id (.finish request.id summary))
    (hfinish : Step b' (.finish request.id summary) d) (dispatcher : Dispatcher I)
    (ctx : Context) (hctx : SeenBy dispatcher request retry ctx) :
    (c.retry = none → ctx.retry = none) ∧
    ∀ policy, c.retry = some policy → (retry = none → policy.maxAttempts ≠ some 0) →
      (ctx.isLastAttempt = true ↔
        d.scheduler.retryTimers request.id = b'.scheduler.retryTimers request.id) := by
  have hseen := hctx.retry_eq
  obtain ⟨st, hst, hretry, hunderway⟩ := hbegin.begin_underway request retry h.coherent.orderly
  have hlast : ctx.isLastAttempt = (st.retry.map RetryProgress.info).any (·.lastAttempt) := by
    unfold Context.isLastAttempt
    rw [hseen, hretry]
  refine ⟨fun hoff => ?_, fun policy hpolicy hnone => ?_⟩
  · rw [hseen, hretry, h.unretried hoff st hst]
    rfl
  obtain ⟨ms, htrace⟩ := hpasses.trace
  have hreachable := h.extend (.cons hbegin htrace)
  obtain ⟨hconfig, hgov⟩ := hreachable.governed hpolicy
  have htimers :=
    (hpasses.underway hunderway).retryTimers_finish hconfig hgov summary hfails
  cases hfinish with
  | finish =>
    dsimp only
    rw [htimers, hlast]
    cases hprogress : st.retry with
    | some e => rfl
    | none =>
      have hsome := hnone (by rw [hretry, hprogress]; rfl)
      have hleft : ¬({ policy } : RetryProgress).isExhausted = true :=
        fun hex => hsome (policy.isExhausted_fresh.mp hex)
      exact iff_of_false Bool.false_ne_true hleft

/-- A dispatcher that leaves everything to the reconciler. -/
def bare : Dispatcher ⟨Empty, fun _ => Unit⟩ where
  finalizer := none
  readinessRecheck := .zero

def newcomer : ManagedObject where
  id := ⟨"App", none, "app"⟩
  spec := .null

theorem seenBy_bare (causes : List TriggerCause) (retry : Option RetryInfo) :
    SeenBy bare ⟨newcomer.id, causes⟩ retry { primary := newcomer.id, retry, causes } := by
  have hstart : (bare.dispatch ⟨newcomer.id, causes⟩ retry).Leads (fun _ _ => True) []
    (bare.dispatch ⟨newcomer.id, causes⟩ retry) := .start
  exact ⟨_, _, _, hstart.answer _ _ _ (some newcomer) trivial, rfl⟩

/-- The failure that ends the dispatches of these runs. -/
def failing (request : ReconciliationRequest) : Move :=
  .finish request.id (.failed .shuttingDown)

/-- After these moves the dispatch begins and fails at once. -/
def attempt? (c : SchedulerConfig) (before : List Move) (request : ReconciliationRequest)
    (retry : Option RetryInfo) : Option (Activity × Activity × Activity) := do
  let a ← (fresh c).replay? before
  let b ← a.replay? [.begin request retry]
  let d ← b.replay? [failing request]
  return (a, b, d)

/-- An attempt that is computed can happen. -/
theorem attempt?_sound (before : List Move) (request : ReconciliationRequest)
    (retry : Option RetryInfo) (h : attempt? c before request retry = some (a, b, d)) :
    Reachable c a ∧ Step a (.begin request retry) b ∧ Step b (failing request) d := by
  obtain ⟨a', ha, h⟩ := Option.bind_eq_some_iff.mp h
  obtain ⟨b', hb, h⟩ := Option.bind_eq_some_iff.mp h
  obtain ⟨d', hd, h⟩ := Option.bind_eq_some_iff.mp h
  cases h
  have hone : ∀ (x y : Activity) (m : Move), x.replay? [m] = some y → Step x m y := by
    intro x y m hxy
    obtain ⟨z, hz, hzy⟩ := Option.bind_eq_some_iff.mp hxy
    obtain rfl := Option.some.inj hzy
    exact step?_sound x z m hz
  exact ⟨⟨before, replay?_sound _ a before ha⟩, hone a b _ hb, hone b d _ hd⟩

/-- The retry of a new object is its last attempt, when it may have a single one. -/
theorem last_attempt_foretold_single :
    ∃ a b d, Reachable { retry := some { RetryPolicy.quick with maxAttempts := some 1 } } a ∧
      Step a (.begin ⟨newcomer.id, [.updated]⟩ (some ⟨1, true⟩)) b ∧
      Step b (failing ⟨newcomer.id, [.updated]⟩) d ∧
      d.scheduler.retryTimers newcomer.id = b.scheduler.retryTimers newcomer.id := by
  have hrun : (attempt? { retry := some { RetryPolicy.quick with maxAttempts := some 1 } }
      [.run, .submit newcomer.id .added false, .takeWorker, .begin ⟨newcomer.id, [.added]⟩ none,
        failing ⟨newcomer.id, [.added]⟩, .submit newcomer.id .updated false, .takeWorker]
      ⟨newcomer.id, [.updated]⟩ (some ⟨1, true⟩)).isSome = true := by
    decide
  obtain ⟨⟨a, b, d⟩, hattempt⟩ := Option.isSome_iff_exists.mp hrun
  obtain ⟨hreachable, hbegin, hfails⟩ := attempt?_sound _ _ _ hattempt
  have hforetold := hreachable.last_attempt_foretold _ _ hbegin .refl _
    (.finish _ .shuttingDown rfl rfl) hfails bare _ (seenBy_bare [.updated] (some ⟨1, true⟩))
  exact ⟨a, b, d, hreachable, hbegin, hfails, (hforetold.2 _ rfl nofun).mp rfl⟩

/-- The first dispatch of a new object is not told that it is the last attempt, though its failure
will not be retried. -/
def UntoldLast (c : SchedulerConfig) : Prop :=
  ∃ a b d ctx, Reachable c a ∧ Step a (.begin ⟨newcomer.id, [.added]⟩ none) b ∧
    Step b (failing ⟨newcomer.id, [.added]⟩) d ∧
    SeenBy bare ⟨newcomer.id, [.added]⟩ none ctx ∧ ctx.isLastAttempt = false ∧
    d.scheduler.retryTimers newcomer.id = b.scheduler.retryTimers newcomer.id

theorem untoldLast_of_attempt
    (h : (attempt? c [.run, .submit newcomer.id .added false, .takeWorker]
      ⟨newcomer.id, [.added]⟩ none).any (fun x => x.2.2.scheduler.retryTimers newcomer.id =
        x.2.1.scheduler.retryTimers newcomer.id) = true) : UntoldLast c := by
  obtain ⟨⟨a, b, d⟩, hattempt, htimers⟩ := (Option.any_eq_true _ _).mp h
  obtain ⟨hreachable, hbegin, hfails⟩ := attempt?_sound _ _ _ hattempt
  exact ⟨a, b, d, _, hreachable, hbegin, hfails, seenBy_bare [.added] none, rfl,
    of_decide_eq_true htimers⟩

/-- So it is with retries switched off, and with a policy that never retries. -/
theorem last_attempt_untold :
    UntoldLast { retry := none } ∧ UntoldLast { retry := some .never } :=
  ⟨untoldLast_of_attempt (by decide), untoldLast_of_attempt (by decide)⟩

end Activity
end Reconciliation
