import Reconciliation.Proofs.Cluster.History
import Reconciliation.Proofs.Dispatch.Licence

/-!
The write of a dispatch. Each of the ways through a dispatch ends with its only write, or without
one. The write expects the version that was read at the start, and its failure is told by the
summary, save for the finalizer of an object that is gone.
-/
namespace Reconciliation

namespace PrimaryUpdate

/-- The spec that is asked for. -/
def spec? : PrimaryUpdate → Option Json
  | resource spec _ => some spec
  | none | status _ => .none

/-- The status that is asked for. -/
def status? : PrimaryUpdate → Option Json
  | none => .none
  | status s => some s
  | resource _ s => s

/-- The spec that is asked for is not the one of the object. -/
def changesSpec (u : PrimaryUpdate) (o : ManagedObject) : Bool :=
  u.spec?.any fun spec => spec != o.spec

/-- The status that is asked for is not the one of the object. -/
def changesStatus : PrimaryUpdate → ManagedObject → Bool
  | none, _ => false
  -- floats are not known to be compared symmetrically, so the sides stand as in the comparison made
  | status s, o => o.status != some s
  | resource _ s, o => s.isSome && s != o.status

/-- Something that is asked for is not as the object has it. -/
def changes (u : PrimaryUpdate) (o : ManagedObject) : Bool := u.changesSpec o || u.changesStatus o

end PrimaryUpdate

namespace DispatchCall
variable {I : Interface}

/-- The write on the cluster that the call is, if it is one. -/
def write? : DispatchCall I → Option ClusterWrite
  | primary (.patch id v p) => some (.patch id v p)
  | _ => none

end DispatchCall

namespace Dispatcher
variable {I : Interface}

/-- A write on the primary with its answer. -/
def written (id : ResourceId) (v : Version) (p : ObjectPatch) (r : Except Error ManagedObject) :
    Exchange (dispatching I) :=
  ⟨.primary (.patch id v p), r⟩

/-- The verdict of a reconcile that has succeeded. -/
def judged (o : ManagedObject) (ctx : Context) (verdict : ReconcileVerdict) :
    Exchange (dispatching I) :=
  ⟨.primary (.reconcile o ctx), (.ok verdict : Except Error ReconcileVerdict)⟩

/-- No write, and no verdict of a reconcile that has succeeded. -/
structure Quiet (x : Exchange (dispatching I)) : Prop where
  unwritten : x.call.write? = none
  unjudged : ∀ o ctx verdict, x ≠ judged o ctx verdict

theorem unwritten_of_quiet (past : Past I) (hpast : ∀ x ∈ past, Quiet x) :
    ∀ x ∈ past, x.call.write? = none := fun x hx => (hpast x hx).unwritten

theorem unwritten_concat_judged (past : Past I) (hpast : ∀ x ∈ past, Quiet x) (o : ManagedObject)
    (ctx : Context) (verdict : ReconcileVerdict) :
    ∀ x ∈ past ++ [judged o ctx verdict], x.call.write? = none :=
  List.forall_mem_append.mpr
    ⟨unwritten_of_quiet past hpast, List.forall_mem_singleton.mpr rfl⟩

/-- The write that a verdict asks for is made when something is not as the primary has it. -/
theorem patchFor_eq (o : ManagedObject) (u : PrimaryUpdate) :
    patchFor o u =
      if u.changes o then some { spec := u.spec?, status := u.status? } else none := by
  cases u with
  | none => rfl
  | status s =>
    change (if o.status == some s then none else some (ObjectPatch.setStatus s)) =
      if !(o.status == some s) then some (ObjectPatch.setStatus s) else none
    cases o.status == some s <;> rfl
  | resource spec status => rfl

theorem changes_of_patchFor_none (o : ManagedObject) (u : PrimaryUpdate)
    (h : patchFor o u = none) : u.changes o = false := by
  rw [patchFor_eq] at h
  cases hchanges : u.changes o with
  | false => rfl
  | true =>
    rw [hchanges] at h
    cases h

theorem changes_of_patchFor_some (o : ManagedObject) (u : PrimaryUpdate) (p : ObjectPatch)
    (h : patchFor o u = some p) :
    u.changes o = true ∧ p = { spec := u.spec?, status := u.status? } := by
  rw [patchFor_eq] at h
  obtain ⟨hchanges, hp⟩ := Option.ite_none_right_eq_some.mp h
  exact ⟨hchanges, (Option.some.inj hp).symm⟩

/-- A call that a dispatch may make after these exchanges: its only write expects the version of
the primary that was read first. -/
inductive MayCall (id : ResourceId) : Past I → DispatchCall I → Prop
  | other (past : Past I) (c : DispatchCall I) (hc : c.write? = none) : MayCall id past c
  | write (o : ManagedObject) (past : Past I) (hpast : ∀ x ∈ past, x.call.write? = none)
      (p : ObjectPatch) :
      MayCall id (observation id (some o) :: past) (.primary (.patch o.id o.version p))

/-- The summary shows the error of a write. A finalizer that was to be taken away from an object
that is gone counts as removed. -/
def Discloses (p : ObjectPatch) (r : Except Error ManagedObject) (summary : DispatchSummary) :
    Prop :=
  ∀ e, r = .error e → summary.error.isSome = true ∨
    e.isNotFound = true ∧ (∃ f, p = .withoutFinalizer f) ∧ summary.finalizerRemoved = true

/-- The ways in which a dispatch may end: without a write and a verdict, with a verdict that asks
for nothing new, with the write that a verdict asks for, and with another write. -/
inductive Ended (id : ResourceId) : Past I → DispatchSummary → Prop
  | quiet (past : Past I) (hpast : ∀ x ∈ past, Quiet x) (summary : DispatchSummary) :
      Ended id past summary
  | content (o : ManagedObject) (hactive : o.isTerminating = false) (past : Past I)
      (hpast : ∀ x ∈ past, Quiet x) (ctx : Context) (verdict : ReconcileVerdict)
      (hsame : patchFor o verdict.update = none) (summary : DispatchSummary) :
      Ended id (observation id (some o) :: past ++ [judged o ctx verdict]) summary
  | updated (o : ManagedObject) (hactive : o.isTerminating = false) (past : Past I)
      (hpast : ∀ x ∈ past, Quiet x) (ctx : Context) (verdict : ReconcileVerdict)
      (p : ObjectPatch) (hp : patchFor o verdict.update = some p)
      (r : Except Error ManagedObject) (summary : DispatchSummary) (hr : Discloses p r summary) :
      Ended id (observation id (some o) :: past ++
        [judged o ctx verdict, written o.id o.version p r]) summary
  | attempted (o : ManagedObject) (past : Past I) (hpast : ∀ x ∈ past, Quiet x)
      (p : ObjectPatch) (r : Except Error ManagedObject) (summary : DispatchSummary)
      (hr : Discloses p r summary) :
      Ended id (observation id (some o) :: past ++ [written o.id o.version p r]) summary

theorem quiet_of_call (x : Exchange (dispatching I)) (hwrite : x.call.write? = none)
    (hcall : ∀ o ctx, x.call ≠ .primary (.reconcile o ctx)) : Quiet x :=
  ⟨hwrite, fun o ctx _ h => hcall o ctx (congrArg Exchange.call h)⟩

theorem quiet_observation (id : ResourceId) (found : Option ManagedObject) :
    Quiet (observation (I := I) id found) := quiet_of_call _ rfl fun _ _ h => by cases h

/-- What is not quiet comes after the exchanges that are. -/
theorem mem_end_of_not_quiet (id : ResourceId) (found : Option ManagedObject) (past last : Past I)
    (hpast : ∀ x ∈ past, Quiet x) (x : Exchange (dispatching I)) (hx : ¬Quiet x)
    (hmem : x ∈ observation id found :: past ++ last) : x ∈ last := by
  rcases List.mem_append.mp hmem with hmem | hmem
  · rcases List.mem_cons.mp hmem with rfl | hmem
    · exact absurd (quiet_observation id found) hx
    · exact absurd (hpast x hmem) hx
  · exact hmem

theorem written_ne_judged (i : ResourceId) (v : Version) (p : ObjectPatch)
    (r : Except Error ManagedObject) (o : ManagedObject) (ctx : Context)
    (verdict : ReconcileVerdict) : written (I := I) i v p r ≠ judged o ctx verdict :=
  fun h => by cases congrArg Exchange.call h

section Ended
variable {id : ResourceId} {past : Past I} {summary : DispatchSummary}

/-- The only write of a dispatch that is over is disclosed. -/
theorem Ended.discloses (h : Ended id past summary) (i : ResourceId) (v : Version)
    (p : ObjectPatch) (r : Except Error ManagedObject) (hr : written i v p r ∈ past) :
    Discloses p r summary := by
  have hloud : ¬Quiet (written (I := I) i v p r) := fun hquiet => by cases hquiet.unwritten
  cases h with
  | quiet past hpast => exact absurd (hpast _ hr) hloud
  | content o hactive past hpast ctx verdict =>
    have hlast := mem_end_of_not_quiet id _ past _ hpast _ hloud hr
    exact absurd (List.mem_singleton.mp hlast) (written_ne_judged i v p r o ctx verdict)
  | updated o hactive past hpast ctx verdict p' hp r' _ hr' =>
    have hlast := mem_end_of_not_quiet id _ past _ hpast _ hloud hr
    rcases List.mem_pair.mp hlast with heq | heq
    · exact absurd heq (written_ne_judged i v p r o ctx verdict)
    · cases heq
      exact hr'
  | attempted o past hpast p' r' _ hr' =>
    have hlast := mem_end_of_not_quiet id _ past _ hpast _ hloud hr
    cases List.mem_singleton.mp hlast
    exact hr'

/-- A successful reconcile is followed by the write that its verdict asks for, or by nothing. -/
theorem Ended.of_judged (h : Ended id past summary) (o : ManagedObject) (ctx : Context)
    (verdict : ReconcileVerdict) (hjudged : judged o ctx verdict ∈ past) :
    o.isTerminating = false ∧ ∃ between last,
      past = observation id (some o) :: between ++ [last] ∧
        (∀ x ∈ between, x.call.write? = none) ∧
        (patchFor o verdict.update = none ∧ last.call.write? = none ∨
          ∃ p r, patchFor o verdict.update = some p ∧ last = written o.id o.version p r) := by
  have hloud : ¬Quiet (judged (I := I) o ctx verdict) := fun hquiet =>
    hquiet.unjudged o ctx verdict rfl
  cases h with
  | quiet past hpast => exact absurd (hpast _ hjudged) hloud
  | content o' hactive past hpast ctx' verdict' hsame =>
    have hlast := mem_end_of_not_quiet id _ past _ hpast _ hloud hjudged
    cases List.mem_singleton.mp hlast
    exact ⟨hactive, past, _, rfl, unwritten_of_quiet past hpast, Or.inl ⟨hsame, rfl⟩⟩
  | updated o' hactive past hpast ctx' verdict' p hp r =>
    have hlast := mem_end_of_not_quiet id _ past _ hpast _ hloud hjudged
    rcases List.mem_pair.mp hlast with heq | heq
    · cases heq
      have hunwritten := unwritten_concat_judged past hpast o ctx verdict
      refine ⟨hactive, past ++ [judged o ctx verdict], _, ?_, hunwritten,
        Or.inr ⟨p, r, hp, rfl⟩⟩
      rw [List.cons_append, List.cons_append, List.append_assoc]
      rfl
    · exact absurd heq.symm (written_ne_judged o'.id o'.version p r o ctx verdict)
  | attempted o' past hpast p r =>
    have hlast := mem_end_of_not_quiet id _ past _ hpast _ hloud hjudged
    exact absurd (List.mem_singleton.mp hlast).symm
      (written_ne_judged o'.id o'.version p r o ctx verdict)

end Ended

theorem ended_of_quiet (id : ResourceId) (found : Option ManagedObject) (past : Past I)
    (hpast : ∀ x ∈ past, Quiet x) (summary : DispatchSummary) :
    Ended id (observation id found :: past) summary :=
  .quiet _ (List.forall_mem_cons.mpr ⟨quiet_observation id found, hpast⟩) summary

theorem forall_quiet_concat (past : Past I) (hpast : ∀ x ∈ past, Quiet x)
    (x : Exchange (dispatching I)) (hx : Quiet x) : ∀ y ∈ past ++ [x], Quiet y :=
  List.forall_mem_append.mpr ⟨hpast, List.forall_mem_singleton.mpr hx⟩

theorem discloses_ok (p : ObjectPatch) (updated : ManagedObject) (summary : DispatchSummary) :
    Discloses p (.ok updated) summary := fun e h => by cases h

theorem discloses_of_error (p : ObjectPatch) (r : Except Error ManagedObject)
    (summary : DispatchSummary) (h : summary.error.isSome = true) : Discloses p r summary :=
  fun _ _ => Or.inl h

/-- What is left of a dispatch makes such calls only, and ends in such a way. -/
abbrev WritesOnce (id : ResourceId) (past : Past I) (t : Dispatching I DispatchSummary) : Prop :=
  t.Obeys (fun _ _ => True) (MayCall id) (Ended id) past

section Rules
variable (id : ResourceId) (o : ManagedObject) (past : Past I) (hpast : ∀ x ∈ past, Quiet x)
include hpast

theorem addFinalizer_writesOnce (f : String) :
    WritesOnce id (observation id (some o) :: past) (addFinalizer o f) := by
  refine ⟨.write o past (unwritten_of_quiet past hpast) _, fun r _ => ?_⟩
  cases r with
  | ok updated => exact .attempted o past hpast _ (.ok updated) _ (discloses_ok _ _ _)
  | error e => exact .attempted o past hpast _ (.error e) _ (discloses_of_error _ _ _ rfl)

/-- To take the finalizer away is the only write; that the object is gone is no failure of it. -/
theorem removeFinalizer_writesOnce (f : String) :
    WritesOnce id (observation id (some o) :: past) (removeFinalizer o f) := by
  refine ⟨.write o past (unwritten_of_quiet past hpast) _,
    fun (r : Except Error ManagedObject) _ => ?_⟩
  cases r with
  | ok updated => exact .attempted o past hpast _ (.ok updated) _ (discloses_ok _ _ _)
  | error e =>
    simp only [Action.bind, ignoreNotFound]
    cases hgone : e.isNotFound with
    | true =>
      refine .attempted o past hpast _ (.error e) _ fun e' he => ?_
      obtain rfl : e = e' := Except.error.inj he
      exact Or.inr ⟨hgone, ⟨f, rfl⟩, rfl⟩
    | false => exact .attempted o past hpast _ (.error e) _ (discloses_of_error _ _ _ rfl)

theorem release_writesOnce (d : Dispatcher I) (ctx : Context) :
    WritesOnce id (observation id (some o) :: past) (d.release o ctx) := by
  refine ⟨.other _ _ rfl, fun (verdict : Except Error CleanupVerdict) _ => ?_⟩
  have hpast' := forall_quiet_concat past hpast ⟨.primary (.cleanup o ctx), verdict⟩
    (quiet_of_call _ rfl fun _ _ h => by cases h)
  simp only [Action.bind]
  rcases verdict with e | (_ | delay)
  · exact ended_of_quiet id (some o) _ hpast' _
  · cases d.finalizer with
    | none => exact ended_of_quiet id (some o) _ hpast' _
    | some f => exact removeFinalizer_writesOnce id o _ hpast' f
  · exact ended_of_quiet id (some o) _ hpast' _

theorem handleError_writesOnce (ctx : Context) (e : Error) :
    WritesOnce id (observation id (some o) :: past) (handleError o ctx e) := by
  refine ⟨.other _ _ rfl, fun (decision : FailureVerdict) _ => ?_⟩
  have hpast' := forall_quiet_concat past hpast ⟨.primary (.errorStatus o ctx e), decision⟩
    (quiet_of_call _ rfl fun _ _ h => by cases h)
  simp only [Action.bind]
  cases decision.status with
  | none => exact ended_of_quiet id (some o) _ hpast' _
  | some status =>
    refine ⟨.write o _ (unwritten_of_quiet _ hpast') _,
      fun (r : Except Error ManagedObject) _ => ?_⟩
    cases r with
    | ok updated => exact .attempted o _ hpast' _ (.ok updated) _ (discloses_ok _ _ _)
    | error e' => exact .attempted o _ hpast' _ (.error e') _ (discloses_of_error _ _ _ rfl)

/-- The write of a verdict comes right after it. -/
theorem applyUpdate_writesOnce (hactive : o.isTerminating = false) (ctx : Context)
    (verdict : ReconcileVerdict) (readiness : Option Span) :
    WritesOnce id (observation id (some o) :: (past ++ [judged o ctx verdict]))
      (applyUpdate o verdict readiness) := by
  unfold applyUpdate
  dsimp only
  cases hp : patchFor o verdict.update with
  | none => exact .content o hactive past hpast ctx verdict hp _
  | some p =>
    have hunwritten := unwritten_concat_judged past hpast o ctx verdict
    refine ⟨.write o _ hunwritten p, fun (r : Except Error ManagedObject) _ => ?_⟩
    rw [List.cons_append, List.append_assoc]
    cases r with
    | ok updated =>
      exact .updated o hactive past hpast ctx verdict p hp (.ok updated) _ (discloses_ok _ _ _)
    | error e =>
      exact .updated o hactive past hpast ctx verdict p hp (.error e) _
        (discloses_of_error _ _ _ rfl)

theorem failed_writesOnce (ctx : Context) (e : Error) (readiness : Option Span) :
    WritesOnce id (observation id (some o) :: past) (conclude o ctx readiness (.error e)) := by
  unfold conclude
  dsimp only
  split
  · exact ended_of_quiet id (some o) past hpast _
  · exact handleError_writesOnce id o past hpast ctx e

/-- The reconciler is asked, and its verdict is put into effect. -/
theorem ask_writesOnce (hactive : o.isTerminating = false) (ctx : Context)
    (readiness : Option Span) :
    WritesOnce id (observation id (some o) :: past)
      ((askPrimary (.reconcile o ctx)).bind (conclude o ctx readiness)) := by
  refine ⟨.other _ _ rfl, fun (r : Except Error ReconcileVerdict) _ => ?_⟩
  cases r with
  | ok verdict => exact applyUpdate_writesOnce id o past hpast hactive ctx verdict readiness
  | error e =>
    have hpast' := forall_quiet_concat past hpast
      ⟨.primary (.reconcile o ctx), (.error e : Except Error ReconcileVerdict)⟩
      ⟨rfl, fun _ _ _ h => by cases h⟩
    exact failed_writesOnce id o _ hpast' ctx e readiness

end Rules

section Dispatch
variable (d : Dispatcher I) (id : ResourceId) (o : ManagedObject) (ctx : Context)

theorem quiet_passed (w : Workflow I) (mode : PassMode) (r : PassResult) :
    Quiet (passed w mode o ctx r) := quiet_of_call _ rfl fun _ _ h => by cases h

/-- A reconcile ends with its only write, or without one. -/
theorem reconcile_writesOnce (hactive : o.isTerminating = false) :
    WritesOnce id [observation id (some o)] (d.reconcile o ctx) := by
  unfold reconcile
  cases d.workflow with
  | none => exact ask_writesOnce id o [] (fun _ h => by cases h) hactive ctx none
  | some w =>
    refine ⟨.other _ _ rfl, fun (r : PassResult) _ => ?_⟩
    have hpast := List.forall_mem_singleton.mpr (quiet_passed o ctx w .reconcile r)
    simp only [Action.bind]
    cases r.toExcept with
    | error e => exact failed_writesOnce id o _ hpast ctx e none
    | ok r => exact ask_writesOnce id o _ hpast hactive _ _

/-- So does a cleanup. -/
theorem cleanup_writesOnce : WritesOnce id [observation id (some o)] (d.cleanup o ctx) := by
  unfold cleanup
  cases d.workflow with
  | none => exact release_writesOnce id o [] (fun _ h => by cases h) d ctx
  | some w =>
    refine ⟨.other _ _ rfl, fun (r : PassResult) _ => ?_⟩
    have hpast := List.forall_mem_singleton.mpr (quiet_passed o ctx w .cleanup r)
    simp only [Action.bind]
    cases r.toExcept with
    | error e => exact ended_of_quiet id (some o) _ hpast _
    | ok r =>
      dsimp only
      split
      · exact release_writesOnce id o _ hpast d _
      · exact ended_of_quiet id (some o) _ hpast _

end Dispatch

/-- Whatever is answered, a dispatch writes once at most. -/
theorem dispatch_writesOnce (d : Dispatcher I) (request : ReconciliationRequest)
    (retry : Option RetryInfo) : WritesOnce request.id [] (d.dispatch request retry) := by
  have hnone : ∀ x ∈ ([] : Past I), Quiet x := fun _ h => by cases h
  refine ⟨.other _ _ rfl, fun (found : Option ManagedObject) _ => ?_⟩
  have hread := ended_of_quiet request.id found [] hnone
  simp only [Action.bind, List.nil_append]
  cases found with
  | none => exact hread _
  | some o =>
    dsimp only
    split
    · unfold cleanupTerminating
      split
      · exact hread _
      · exact d.cleanup_writesOnce request.id o _
    · rename_i hactive
      unfold reconcileActive
      split
      · exact addFinalizer_writesOnce request.id o [] hnone _
      · exact d.reconcile_writesOnce request.id o _ (Bool.eq_false_iff.mpr hactive)

end Dispatcher
end Reconciliation
