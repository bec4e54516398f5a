import Reconciliation.Proofs.Dispatch.Finalizer
import Reconciliation.Proofs.Dispatch.Writes

/-!
Why a dispatch writes. A finalizer is added where it is missing and taken away where it is held, the
update of a verdict is made where it asks for something new, and a failure is recorded as the
reconciler asks for it. Each follows from the exchange before it.
-/
namespace Reconciliation.Dispatcher

variable {I : Interface}

/-- What the reconciler says to a failure. -/
def advice (o : ManagedObject) (ctx : Context) (e : Error) (v : FailureVerdict) :
    Exchange (dispatching I) :=
  ⟨.primary (.errorStatus o ctx e), v⟩

/-- A patch with a reason to be made: what it brings is missing from the object that was read. -/
inductive Called (d : Dispatcher I) (o : ManagedObject) : Past I → ObjectPatch → Prop
  | addFinalizer (f : String) (hactive : o.isTerminating = false)
      (hlacks : d.missingFinalizer? o = some f) : Called d o [] (.withFinalizer f)
  | update (past : Past I) (hactive : o.isTerminating = false) (ctx : Context)
      (verdict : ReconcileVerdict) (p : ObjectPatch) (hp : patchFor o verdict.update = some p) :
      Called d o (past ++ [judged o ctx verdict]) p
  | record (past : Past I) (ctx : Context) (e : Error) (v : FailureVerdict) (status : Json)
      (hstatus : v.status = some status) :
      Called d o (past ++ [advice o ctx e v]) (.setStatus status)
  | removeFinalizer (past : Past I) (hterminating : o.isTerminating = true) (ctx : Context)
      (f : String) (hf : d.finalizer = some f) (hholds : o.hasFinalizer f = true) :
      Called d o (past ++ [agreement o ctx]) (.withoutFinalizer f)

/-- A call that is no write, or the only write of the dispatch, with a reason. -/
inductive Motivated (d : Dispatcher I) (id : ResourceId) : Past I → DispatchCall I → Prop
  | other (past : Past I) (c : DispatchCall I) (hc : c.write? = none) : Motivated d id past c
  | write (o : ManagedObject) (past : Past I) (hpast : ∀ x ∈ past, x.call.write? = none)
      (p : ObjectPatch) (hp : d.Called o past p) :
      Motivated d id (observation id (some o) :: past) (.primary (.patch o.id o.version p))

/-- A dispatch ends without a write, or right after it. Once the reconciler agrees, the finalizer is
taken away, if there is one. -/
inductive Finished (d : Dispatcher I) (id : ResourceId) : Past I → Prop
  | unwritten (past : Past I) (hpast : ∀ x ∈ past, x.call.write? = none)
      (hfree : ∀ o ctx, agreement o ctx ∈ past → d.finalizer = none) : Finished d id past
  | written (o : ManagedObject) (past : Past I) (hpast : ∀ x ∈ past, x.call.write? = none)
      (p : ObjectPatch) (hp : d.Called o past p)
      (hagreed : ∀ o' ctx, agreement o' ctx ∈ past →
        ∃ f, d.finalizer = some f ∧ p = .withoutFinalizer f)
      (r : Except Error ManagedObject) :
      Finished d id (observation id (some o) :: past ++ [written o.id o.version p r])

/-- What is left of a dispatch has a reason for its write. -/
abbrev Motivates (d : Dispatcher I) (id : ResourceId) (past : Past I)
    (t : Dispatching I DispatchSummary) : Prop :=
  t.Obeys (fun _ _ => True) (d.Motivated id) (fun past _ => d.Finished id past) past

/-- Neither a write nor the agreement that the finalizer may go. -/
structure Idle (x : Exchange (dispatching I)) : Prop where
  unwritten : x.call.write? = none
  disagreed : ∀ o ctx, x ≠ agreement o ctx

theorem idle_of_call (x : Exchange (dispatching I)) (hwrite : x.call.write? = none)
    (hcall : ∀ o ctx, x.call ≠ .primary (.cleanup o ctx)) : Idle x :=
  ⟨hwrite, fun o ctx h => hcall o ctx (congrArg Exchange.call h)⟩

theorem idle_observation (id : ResourceId) (found : Option ManagedObject) :
    Idle (observation (I := I) id found) := idle_of_call _ rfl fun _ _ h => by cases h

theorem idle_judged (o : ManagedObject) (ctx : Context) (verdict : ReconcileVerdict) :
    Idle (judged (I := I) o ctx verdict) := idle_of_call _ rfl fun _ _ h => by cases h

theorem idle_advice (o : ManagedObject) (ctx : Context) (e : Error) (v : FailureVerdict) :
    Idle (advice (I := I) o ctx e v) := idle_of_call _ rfl fun _ _ h => by cases h

section Rules
variable (d : Dispatcher I) (id : ResourceId) (o : ManagedObject)

theorem finished_of_idle (found : Option ManagedObject) (past : Past I)
    (hpast : ∀ x ∈ past, Idle x) : d.Finished id (observation id found :: past) := by
  have hall := List.forall_mem_cons.mpr ⟨idle_observation id found, hpast⟩
  exact .unwritten _ (fun x hx => (hall x hx).unwritten)
    fun o ctx hx => absurd rfl ((hall _ hx).disagreed o ctx)

theorem finished_of_written (past : Past I) (hpast : ∀ x ∈ past, Idle x) (p : ObjectPatch)
    (hp : d.Called o past p) (r : Except Error ManagedObject) :
    d.Finished id (observation id (some o) :: past ++ [written o.id o.version p r]) :=
  .written o past (fun x hx => (hpast x hx).unwritten) p hp
    (fun o' ctx hx => absurd rfl ((hpast _ hx).disagreed o' ctx)) r

theorem forall_idle_concat (past : Past I) (hpast : ∀ x ∈ past, Idle x)
    (x : Exchange (dispatching I)) (hx : Idle x) : ∀ y ∈ past ++ [x], Idle y :=
  List.forall_mem_append.mpr ⟨hpast, List.forall_mem_singleton.mpr hx⟩

theorem addFinalizer_motivates (f : String) (hactive : o.isTerminating = false)
    (hlacks : d.missingFinalizer? o = some f) :
    d.Motivates id [observation id (some o)] (addFinalizer o f) := by
  have hnone : ∀ x ∈ ([] : Past I), Idle x := fun _ h => by cases h
  have hcalled := Called.addFinalizer f hactive hlacks
  refine ⟨.write o [] (fun x hx => (hnone x hx).unwritten) _ hcalled, fun r _ => ?_⟩
  cases r with
  | ok updated => exact d.finished_of_written id o [] hnone _ hcalled (.ok updated)
  | error e => exact d.finished_of_written id o [] hnone _ hcalled (.error e)

section Active
variable (hactive : o.isTerminating = false) (past : Past I) (hpast : ∀ x ∈ past, Idle x)
include hpast

/-- An error leads to a write only if the reconciler asks for a record of it. -/
theorem handleError_motivates (ctx : Context) (e : Error) :
    d.Motivates id (observation id (some o) :: past) (handleError o ctx e) := by
  refine ⟨.other _ _ rfl, fun (v : FailureVerdict) _ => ?_⟩
  have hpast' := forall_idle_concat past hpast (advice o ctx e v) (idle_advice o ctx e v)
  simp only [Action.bind]
  cases hstatus : v.status with
  | none => exact d.finished_of_idle id (some o) _ hpast'
  | some status =>
    have hcalled := Called.record (d := d) (o := o) past ctx e v status hstatus
    refine ⟨.write o _ (fun x hx => (hpast' x hx).unwritten) _ hcalled,
      fun (r : Except Error ManagedObject) _ => ?_⟩
    cases r with
    | ok updated => exact d.finished_of_written id o _ hpast' _ hcalled (.ok updated)
    | error e => exact d.finished_of_written id o _ hpast' _ hcalled (.error e)

theorem failed_motivates (ctx : Context) (e : Error) (readiness : Option Span) :
    d.Motivates id (observation id (some o) :: past) (conclude o ctx readiness (.error e)) := by
  unfold conclude
  dsimp only
  split
  · exact d.finished_of_idle id (some o) past hpast
  · exact d.handleError_motivates id o past hpast ctx e

include hactive

/-- A verdict leads to a write only if it asks for something new. -/
theorem applyUpdate_motivates (ctx : Context) (verdict : ReconcileVerdict)
    (readiness : Option Span) :
    d.Motivates id (observation id (some o) :: (past ++ [judged o ctx verdict]))
      (applyUpdate o verdict readiness) := by
  have hpast' := forall_idle_concat past hpast (judged o ctx verdict) (idle_judged o ctx verdict)
  unfold applyUpdate
  dsimp only
  cases hp : patchFor o verdict.update with
  | none => exact d.finished_of_idle id (some o) _ hpast'
  | some p =>
    have hcalled := Called.update (d := d) past hactive ctx verdict p hp
    refine ⟨.write o _ (fun x hx => (hpast' x hx).unwritten) p hcalled,
      fun (r : Except Error ManagedObject) _ => ?_⟩
    cases r with
    | ok updated => exact d.finished_of_written id o _ hpast' p hcalled (.ok updated)
    | error e => exact d.finished_of_written id o _ hpast' p hcalled (.error e)

theorem ask_motivates (ctx : Context) (readiness : Option Span) :
    d.Motivates id (observation id (some o) :: past)
      ((askPrimary (.reconcile o ctx)).bind (conclude o ctx readiness)) := by
  refine ⟨.other _ _ rfl, fun (r : Except Error ReconcileVerdict) _ => ?_⟩
  cases r with
  | ok verdict => exact d.applyUpdate_motivates id o hactive past hpast ctx verdict readiness
  | error e =>
    have hpast' := forall_idle_concat past hpast
      ⟨.primary (.reconcile o ctx), (.error e : Except Error ReconcileVerdict)⟩
      (idle_of_call _ rfl fun _ _ h => by cases h)
    exact d.failed_motivates id o _ hpast' ctx e readiness

end Active

section Terminating
variable (hterminating : o.isTerminating = true) (hholds : d.missingFinalizer? o = none)
  (past : Past I) (hpast : ∀ x ∈ past, Idle x)
include hpast

theorem forall_unwritten_agreement (ctx : Context) :
    ∀ x ∈ past ++ [agreement o ctx], x.call.write? = none :=
  List.forall_mem_append.mpr
    ⟨fun x hx => (hpast x hx).unwritten, List.forall_mem_singleton.mpr rfl⟩

include hterminating hholds

theorem removeFinalizer_motivates (ctx : Context) (f : String) (hf : d.finalizer = some f) :
    d.Motivates id (observation id (some o) :: (past ++ [agreement o ctx]))
      (removeFinalizer o f) := by
  have hunwritten := forall_unwritten_agreement o past hpast ctx
  have hheld := (d.missingFinalizer?_eq_none_iff f hf o).mp hholds
  have hcalled := Called.removeFinalizer (d := d) past hterminating ctx f hf hheld
  refine ⟨.write o _ hunwritten _ hcalled, fun (r : Except Error ManagedObject) _ => ?_⟩
  simp only [Action.bind]
  cases ignoreNotFound r with
  | ok updated => exact .written o _ hunwritten _ hcalled (fun _ _ _ => ⟨f, hf, rfl⟩) r
  | error e => exact .written o _ hunwritten _ hcalled (fun _ _ _ => ⟨f, hf, rfl⟩) r

/-- The finalizer is taken away where it is held. -/
theorem release_motivates (ctx : Context) :
    d.Motivates id (observation id (some o) :: past) (d.release o ctx) := by
  refine ⟨.other _ _ rfl, fun (verdict : Except Error CleanupVerdict) _ => ?_⟩
  simp only [Action.bind]
  rcases verdict with e | (_ | delay)
  · have hpast' := forall_idle_concat past hpast
      ⟨.primary (.cleanup o ctx), (.error e : Except Error CleanupVerdict)⟩
      ⟨rfl, fun _ _ h => by cases h⟩
    exact d.finished_of_idle id (some o) _ hpast'
  · cases hf : d.finalizer with
    | none =>
      have hunwritten := forall_unwritten_agreement o past hpast ctx
      exact .unwritten _ (List.forall_mem_cons.mpr ⟨rfl, hunwritten⟩) fun _ _ _ => hf
    | some f => exact d.removeFinalizer_motivates id o hterminating hholds past hpast ctx f hf
  · have hpast' := forall_idle_concat past hpast
      ⟨.primary (.cleanup o ctx), (.ok (.reschedule delay) : Except Error CleanupVerdict)⟩
      ⟨rfl, fun _ _ h => by cases h⟩
    exact d.finished_of_idle id (some o) _ hpast'

end Terminating

theorem idle_passed (w : Workflow I) (mode : PassMode) (ctx : Context) (r : PassResult) :
    Idle (passed w mode o ctx r) := idle_of_call _ rfl fun _ _ h => by cases h

/-- Each write of a reconcile has a reason. -/
theorem reconcile_motivates (hactive : o.isTerminating = false) (ctx : Context) :
    d.Motivates id [observation id (some o)] (d.reconcile o ctx) := by
  unfold reconcile
  cases d.workflow with
  | none => exact d.ask_motivates id o hactive [] (fun _ h => by cases h) ctx none
  | some w =>
    refine ⟨.other _ _ rfl, fun (r : PassResult) _ => ?_⟩
    have hpast := List.forall_mem_singleton.mpr (idle_passed o w .reconcile ctx r)
    simp only [Action.bind]
    cases r.toExcept with
    | error e => exact d.failed_motivates id o _ hpast ctx e none
    | ok r => exact d.ask_motivates id o hactive _ hpast _ _

/-- So has each write of a cleanup. -/
theorem cleanup_motivates (hterminating : o.isTerminating = true)
    (hholds : d.missingFinalizer? o = none) (ctx : Context) :
    d.Motivates id [observation id (some o)] (d.cleanup o ctx) := by
  unfold cleanup
  cases d.workflow with
  | none =>
    exact d.release_motivates id o hterminating hholds [] (fun _ h => by cases h) ctx
  | some w =>
    refine ⟨.other _ _ rfl, fun (r : PassResult) _ => ?_⟩
    have hpast := List.forall_mem_singleton.mpr (idle_passed o w .cleanup ctx r)
    simp only [Action.bind]
    cases r.toExcept with
    | error e => exact d.finished_of_idle id (some o) _ hpast
    | ok r =>
      dsimp only
      split
      · exact d.release_motivates id o hterminating hholds _ hpast _
      · exact d.finished_of_idle id (some o) _ hpast

end Rules

/-- Whatever is answered, a dispatch has a reason for its write. -/
theorem dispatch_motivates (d : Dispatcher I) (request : ReconciliationRequest)
    (retry : Option RetryInfo) : d.Motivates request.id [] (d.dispatch request retry) := by
  have hnone : ∀ x ∈ ([] : Past I), Idle x := fun _ h => by cases h
  refine ⟨.other _ _ rfl, fun (found : Option ManagedObject) _ => ?_⟩
  have hread := d.finished_of_idle request.id found [] hnone
  simp only [Action.bind, List.nil_append]
  cases found with
  | none => exact hread
  | some o =>
    dsimp only
    split
    · rename_i hterminating
      unfold cleanupTerminating
      split
      · exact hread
      · rename_i hholds
        exact d.cleanup_motivates request.id o hterminating hholds _
    · rename_i hactive
      have hactive := Bool.eq_false_iff.mpr hactive
      unfold reconcileActive
      split
      · rename_i f hlacks
        exact d.addFinalizer_motivates request.id o f hactive hlacks
      · exact d.reconcile_motivates request.id o hactive _

end Reconciliation.Dispatcher
