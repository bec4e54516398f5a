import Reconciliation.Dispatch.Dispatcher
import Reconciliation.Proofs.Task.History
import Reconciliation.Proofs.Workflow.Calls

/-!
What the calls of a dispatch need. A call is licensed by the exchanges before it: by what the
first one has shown of the primary, by the result of the cleanup pass, and by the verdict of the
reconciler. Every dispatch keeps to this whatever is answered, and its summary fits in with all
the exchanges. What is said of finalizers, writes and failures of a dispatch is read off here.
-/
namespace Reconciliation

/-- The write leaves the finalizers as they are. -/
def ObjectPatch.KeepsFinalizers (p : ObjectPatch) : Prop :=
  p.addFinalizer = none ∧ p.removeFinalizer = none

namespace DispatchCall
variable {I : Interface} {σ : Type}

/-- The answers that a call can get: any verdict and any state of the cluster, and of a pass the
results that it can come to. -/
def Possible (env : Environment I σ) : (c : DispatchCall I) → c.Reply → Prop
  | primary _, _ => True
  | pass w mode o ctx, r => ∃ calls, (w.pass mode o ctx).Course env (.over r) calls

end DispatchCall

namespace Dispatcher
variable {I : Interface} {σ : Type}

abbrev Past (I : Interface) := List (Exchange (dispatching I))

/-- The first exchange of a dispatch: its primary, as it was read. -/
def observation (id : ResourceId) (found : Option ManagedObject) : Exchange (dispatching I) :=
  ⟨.primary (.observe id), found⟩

/-- A pass over the dependents of a primary with its result. -/
def passed (w : Workflow I) (mode : PassMode) (o : ManagedObject) (ctx : Context)
    (r : PassResult) : Exchange (dispatching I) :=
  ⟨.pass w mode o ctx, r⟩

/-- The reconciler agrees that the finalizer may go. -/
def agreement (o : ManagedObject) (ctx : Context) : Exchange (dispatching I) :=
  ⟨.primary (.cleanup o ctx), (.ok .proceed : Except Error CleanupVerdict)⟩

/-- The cleanup pass over the dependents of the primary has left none of them unsettled. -/
inductive DependentsGone (d : Dispatcher I) (o : ManagedObject) : Past I → Prop
  | without (hw : d.workflow = none) : DependentsGone d o []
  | settled (w : Workflow I) (hw : d.workflow = some w) (ctx : Context) (r : PassResult)
      (hr : w.Settles r) : DependentsGone d o [passed w .cleanup o ctx r]

/-- The calls that the exchanges before them allow a dispatch to make. -/
inductive Licensed (d : Dispatcher I) (id : ResourceId) : Past I → DispatchCall I → Prop
  | observe : Licensed d id [] (.primary (.observe id))
  | addFinalizer (o : ManagedObject) (f : String) (hactive : o.isTerminating = false)
      (hlacks : d.missingFinalizer? o = some f) :
      Licensed d id [observation id (some o)]
        (.primary (.patch o.id o.version (.withFinalizer f)))
  | pass (o : ManagedObject) (hholds : d.missingFinalizer? o = none) (w : Workflow I)
      (hw : d.workflow = some w) (mode : PassMode)
      (hmode : mode = .reconcile ↔ o.isTerminating = false) (ctx : Context) :
      Licensed d id [observation id (some o)] (.pass w mode o ctx)
  | reconcile (o : ManagedObject) (hactive : o.isTerminating = false)
      (hholds : d.missingFinalizer? o = none) (past : Past I) (ctx : Context) :
      Licensed d id (observation id (some o) :: past) (.primary (.reconcile o ctx))
  | errorStatus (o : ManagedObject) (hactive : o.isTerminating = false)
      (hholds : d.missingFinalizer? o = none) (past : Past I) (ctx : Context) (e : Error) :
      Licensed d id (observation id (some o) :: past) (.primary (.errorStatus o ctx e))
  | write (o : ManagedObject) (hactive : o.isTerminating = false)
      (hholds : d.missingFinalizer? o = none) (past : Past I) (p : ObjectPatch)
      (hp : p.KeepsFinalizers) :
      Licensed d id (observation id (some o) :: past) (.primary (.patch o.id o.version p))
  | cleanup (o : ManagedObject) (hterminating : o.isTerminating = true)
      (hholds : d.missingFinalizer? o = none) (past : Past I) (hpast : d.DependentsGone o past)
      (ctx : Context) :
      Licensed d id (observation id (some o) :: past) (.primary (.cleanup o ctx))
  | removeFinalizer (o : ManagedObject) (hterminating : o.isTerminating = true)
      (hholds : d.missingFinalizer? o = none) (past : Past I) (hpast : d.DependentsGone o past)
      (ctx : Context) (f : String) (hf : d.finalizer = some f) :
      Licensed d id (observation id (some o) :: past ++ [agreement o ctx])
        (.primary (.patch o.id o.version (.withoutFinalizer f)))

/-- How a dispatch may end, after what exchanges. -/
inductive Concluded (d : Dispatcher I) (id : ResourceId) : Past I → DispatchSummary → Prop
  | gone : Concluded d id [observation id none] .skip
  | foreign (o : ManagedObject) (f : String) (hterminating : o.isTerminating = true)
      (hlacks : d.missingFinalizer? o = some f) :
      Concluded d id [observation id (some o)] .skip
  | finalizerAdded (o : ManagedObject) (f : String) (hactive : o.isTerminating = false)
      (hlacks : d.missingFinalizer? o = some f) (r : Except Error ManagedObject)
      (summary : DispatchSummary) :
      Concluded d id [observation id (some o),
        ⟨.primary (.patch o.id o.version (.withFinalizer f)), r⟩] summary
  | handled (o : ManagedObject) (hholds : d.missingFinalizer? o = none) (past : Past I)
      (summary : DispatchSummary) :
      Concluded d id (observation id (some o) :: past) summary

/-- No verdict of the reconciler touches finalizers. -/
theorem patchFor_keepsFinalizers (o : ManagedObject) (update : PrimaryUpdate) (p : ObjectPatch)
    (h : patchFor o update = some p) : p.KeepsFinalizers := by
  cases update with
  | none => cases h
  | status status =>
    simp only [patchFor] at h
    split at h
    · cases h
    · rw [← Option.some.inj h]
      exact ⟨rfl, rfl⟩
  | resource spec status =>
    simp only [patchFor] at h
    split at h
    · rw [← Option.some.inj h]
      exact ⟨rfl, rfl⟩
    · cases h

theorem eq_of_toExcept (r r' : PassResult) (h : r.toExcept = .ok r') : r = r' := by
  unfold PassResult.toExcept at h
  split at h
  · exact Except.ok.inj h
  · cases h

/-- What is left of a dispatch keeps to the licences after its past. -/
abbrev KeepsTo (d : Dispatcher I) (id : ResourceId) (env : Environment I σ) (past : Past I)
    (t : Dispatching I DispatchSummary) : Prop :=
  t.Obeys (DispatchCall.Possible env) (d.Licensed id) (d.Concluded id) past

section Rules
variable (d : Dispatcher I) (id : ResourceId) (env : Environment I σ) (o : ManagedObject)

theorem addFinalizer_keepsTo (f : String) (hactive : o.isTerminating = false)
    (hlacks : d.missingFinalizer? o = some f) :
    d.KeepsTo id env [observation id (some o)] (addFinalizer o f) := by
  refine ⟨.addFinalizer o f hactive hlacks, fun r _ => ?_⟩
  cases r with
  | ok updated => exact .finalizerAdded o f hactive hlacks _ _
  | error e => exact .finalizerAdded o f hactive hlacks _ _

section Active
variable (hactive : o.isTerminating = false) (hholds : d.missingFinalizer? o = none)
  (past : Past I)
include hactive hholds

/-- Putting a verdict into effect is licensed by the verdict. -/
theorem applyUpdate_keepsTo (verdict : ReconcileVerdict) (readiness : Option Span) :
    d.KeepsTo id env (observation id (some o) :: past) (applyUpdate o verdict readiness) := by
  unfold applyUpdate
  dsimp only
  cases hp : patchFor o verdict.update with
  | none => exact .handled o hholds past _
  | some p =>
    have hkeeps := patchFor_keepsFinalizers o verdict.update p hp
    refine ⟨.write o hactive hholds past p hkeeps, fun r _ => ?_⟩
    cases r with
    | ok updated => exact .handled o hholds _ _
    | error e => exact .handled o hholds _ _

theorem handleError_keepsTo (ctx : Context) (e : Error) :
    d.KeepsTo id env (observation id (some o) :: past) (handleError o ctx e) := by
  refine ⟨.errorStatus o hactive hholds past ctx e, fun (decision : FailureVerdict) _ => ?_⟩
  simp only [Action.bind]
  cases hstatus : decision.status with
  | none => exact .handled o hholds _ _
  | some status =>
    refine ⟨.write o hactive hholds _ _ ⟨rfl, rfl⟩, fun r _ => ?_⟩
    cases r with
    | ok updated => exact .handled o hholds _ _
    | error e => exact .handled o hholds _ _

theorem conclude_keepsTo (ctx : Context) (readiness : Option Span)
    (outcome : Except Error ReconcileVerdict) :
    d.KeepsTo id env (observation id (some o) :: past) (conclude o ctx readiness outcome) := by
  cases outcome with
  | ok verdict => exact d.applyUpdate_keepsTo id env o hactive hholds past verdict readiness
  | error e =>
    unfold conclude
    dsimp only
    split
    · exact .handled o hholds past _
    · exact d.handleError_keepsTo id env o hactive hholds past ctx e

/-- The reconcile of an active primary keeps to its licences. -/
theorem reconcile_keepsTo (ctx : Context) :
    d.KeepsTo id env [observation id (some o)] (d.reconcile o ctx) := by
  unfold reconcile
  cases hw : d.workflow with
  | none =>
    refine ⟨.reconcile o hactive hholds [] ctx, fun r _ => ?_⟩
    exact d.conclude_keepsTo id env o hactive hholds _ ctx none r
  | some w =>
    have hmode : PassMode.reconcile = .reconcile ↔ o.isTerminating = false := by
      simp only [hactive]
    refine ⟨.pass o hholds w hw .reconcile hmode ctx, fun (r : PassResult) _ => ?_⟩
    simp only [Action.bind]
    cases r.toExcept with
    | error e => exact d.conclude_keepsTo id env o hactive hholds _ ctx none (.error e)
    | ok r =>
      refine ⟨.reconcile o hactive hholds _ _, fun verdict _ => ?_⟩
      exact d.conclude_keepsTo id env o hactive hholds _ _ _ verdict

end Active

section Terminating
variable (hterminating : o.isTerminating = true) (hholds : d.missingFinalizer? o = none)
include hterminating hholds

/-- The finalizer is taken away where the dependents are gone and the reconciler agrees. -/
theorem release_keepsTo (past : Past I) (hpast : d.DependentsGone o past) (ctx : Context) :
    d.KeepsTo id env (observation id (some o) :: past) (d.release o ctx) := by
  refine ⟨.cleanup o hterminating hholds past hpast ctx,
    fun (verdict : Except Error CleanupVerdict) _ => ?_⟩
  simp only [Action.bind]
  rcases verdict with e | (_ | delay)
  · exact .handled o hholds _ _
  · cases hf : d.finalizer with
    | none => exact .handled o hholds _ _
    | some f =>
      refine ⟨.removeFinalizer o hterminating hholds past hpast ctx f hf,
        fun (r : Except Error ManagedObject) _ => ?_⟩
      simp only [Action.bind]
      cases ignoreNotFound r with
      | ok updated => exact .handled o hholds _ _
      | error e => exact .handled o hholds _ _
  · exact .handled o hholds _ _

/-- The cleanup of a terminating primary keeps to its licences. -/
theorem cleanup_keepsTo (hformed : ∀ w, d.workflow = some w → w.WellFormed) (ctx : Context) :
    d.KeepsTo id env [observation id (some o)] (d.cleanup o ctx) := by
  unfold cleanup
  cases hw : d.workflow with
  | none => exact d.release_keepsTo id env o hterminating hholds [] (.without hw) ctx
  | some w =>
    have hmode : PassMode.cleanup = .reconcile ↔ o.isTerminating = false := by
      simp only [hterminating, reduceCtorEq]
    refine ⟨.pass o hholds w hw .cleanup hmode ctx, fun (r : PassResult) hr => ?_⟩
    simp only [Action.bind]
    cases hoverall : r.toExcept with
    | error e => exact .handled o hholds _ _
    | ok r' =>
      obtain rfl := eq_of_toExcept r r' hoverall
      obtain ⟨calls, hcourse⟩ := hr
      have hreports := (hcourse.calls_of_nodes (hformed w hw)).2 r rfl
      dsimp only
      split
      · rename_i hready
        have hsettles := hreports.settles (hformed w hw) hready
        exact d.release_keepsTo id env o hterminating hholds _ (.settled w hw ctx r hsettles) _
      · exact .handled o hholds _ _

end Terminating

theorem cleanupTerminating_keepsTo (hformed : ∀ w, d.workflow = some w → w.WellFormed)
    (hterminating : o.isTerminating = true) (ctx : Context) :
    d.KeepsTo id env [observation id (some o)] (d.cleanupTerminating o ctx) := by
  unfold cleanupTerminating
  cases hmissing : d.missingFinalizer? o with
  | some f => exact .foreign o f hterminating hmissing
  | none => exact d.cleanup_keepsTo id env o hterminating hmissing hformed ctx

theorem reconcileActive_keepsTo (hactive : o.isTerminating = false) (ctx : Context) :
    d.KeepsTo id env [observation id (some o)] (d.reconcileActive o ctx) := by
  unfold reconcileActive
  cases hmissing : d.missingFinalizer? o with
  | some f => exact d.addFinalizer_keepsTo id env o f hactive hmissing
  | none => exact d.reconcile_keepsTo id env o hactive hmissing ctx

end Rules

/-- Whatever is answered, a dispatch makes licensed calls only. -/
theorem dispatch_keepsTo (d : Dispatcher I) (env : Environment I σ)
    (hformed : ∀ w, d.workflow = some w → w.WellFormed) (request : ReconciliationRequest)
    (retry : Option RetryInfo) :
    d.KeepsTo request.id env [] (d.dispatch request retry) := by
  refine ⟨.observe, fun (found : Option ManagedObject) _ => ?_⟩
  simp only [Action.bind, List.nil_append]
  cases found with
  | none => exact .gone
  | some o =>
    dsimp only
    split
    · rename_i hterminating
      exact d.cleanupTerminating_keepsTo request.id env o hformed hterminating _
    · rename_i hactive
      exact d.reconcileActive_keepsTo request.id env o (Bool.not_eq_true _ ▸ hactive) _

end Dispatcher
end Reconciliation
