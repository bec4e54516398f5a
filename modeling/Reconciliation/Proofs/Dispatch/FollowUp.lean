import Reconciliation.Proofs.Dispatch.Finalizer
import Reconciliation.Proofs.Workflow.Recheck

/-!
Dispatches after a pass that was not ready. Whatever the reconciler and the cluster answer, such
a dispatch ends with an error or with a time at which the primary is looked at again.
-/
namespace Reconciliation

/-- The dispatch carries an error or a delay, so it is not the last one. -/
def DispatchSummary.ComesBack (summary : DispatchSummary) : Prop :=
  summary.error.isSome = true ∨ summary.reschedule.isSome = true

namespace Dispatcher
variable {I : Interface} {σ : Type}

/-- A pass has left nodes that are not settled. -/
def Unready (past : Past I) : Prop :=
  ∃ w mode o ctx r, passed w mode o ctx r ∈ past ∧ r.allReady = false

/-- What is left of a dispatch comes back if a pass was not ready. -/
abbrev FollowsUp (env : Environment I σ) (past : Past I) (t : Dispatching I DispatchSummary) :
    Prop :=
  t.Obeys (DispatchCall.Possible env) (fun _ _ => True)
    (fun past summary => Unready past → summary.ComesBack) past

/-- A call about the primary is no pass. -/
theorem Unready.before {past : Past I} {c : PrimaryCall} {a : c.Reply}
    (h : Unready (past ++ [⟨.primary c, a⟩])) : Unready past := by
  obtain ⟨w, mode, o, ctx, r, hmem, hr⟩ := h
  rcases List.mem_append.mp hmem with hmem | hlast
  · exact ⟨w, mode, o, ctx, r, hmem, hr⟩
  · cases congrArg Exchange.call (List.mem_singleton.mp hlast)

theorem not_unready_nil : ¬ Unready ([] : Past I) := by
  rintro ⟨w, mode, o, ctx, r, hmem, _⟩
  cases hmem

theorem not_unready_read (id : ResourceId) (found : Option ManagedObject) :
    ¬ Unready ([observation id found] : Past I) := fun h =>
  not_unready_nil (Unready.before (c := .observe id) (a := found) h)

theorem Unready.of_passed {id : ResourceId} {found : Option ManagedObject} {w : Workflow I}
    {mode : PassMode} {o : ManagedObject} {ctx : Context} {r : PassResult}
    (h : Unready ([observation id found] ++ [passed w mode o ctx r])) : r.allReady = false := by
  obtain ⟨w', mode', o', ctx', r', hmem, hr⟩ := h
  rcases List.mem_append.mp hmem with hread | hlast
  · cases congrArg Exchange.call (List.mem_singleton.mp hread)
  · cases List.mem_singleton.mp hlast
    exact hr

section Parts
variable (d : Dispatcher I) (env : Environment I σ) (o : ManagedObject) (past : Past I)

theorem addFinalizer_followsUp (f : String) : FollowsUp env past (addFinalizer o f) := by
  refine ⟨trivial, fun r _ => ?_⟩
  cases r with
  | ok updated => exact fun _ => Or.inr rfl
  | error e => exact fun _ => Or.inl rfl

/-- A verdict is put into effect with the delay that the readiness of the pass asks for. -/
theorem applyUpdate_followsUp (verdict : ReconcileVerdict) (readiness : Option Span)
    (h : Unready past → readiness.isSome = true) :
    FollowsUp env past (applyUpdate o verdict readiness) := by
  have hreschedule : Unready past → (verdict.reschedule.or readiness).isSome = true := by
    intro hunready
    rw [Option.isSome_or, h hunready, Bool.or_true]
  unfold applyUpdate
  dsimp only
  cases patchFor o verdict.update with
  | none => exact fun hunready => Or.inr (hreschedule hunready)
  | some p =>
    refine ⟨trivial, fun r _ => ?_⟩
    cases r with
    | ok updated => exact fun hunready => Or.inr (hreschedule hunready.before)
    | error e => exact fun _ => Or.inl rfl

theorem handleError_followsUp (ctx : Context) (e : Error) :
    FollowsUp env past (handleError o ctx e) := by
  refine ⟨trivial, fun (decision : FailureVerdict) _ => ?_⟩
  simp only [Action.bind]
  cases decision.status with
  | none => exact fun _ => Or.inl rfl
  | some status =>
    refine ⟨trivial, fun r _ => ?_⟩
    cases r with
    | ok updated => exact fun _ => Or.inl rfl
    | error e => exact fun _ => Or.inl rfl

theorem conclude_error_followsUp (ctx : Context) (readiness : Option Span) (e : Error) :
    FollowsUp env past (conclude o ctx readiness (.error e)) := by
  unfold conclude
  dsimp only
  split
  · exact fun _ => Or.inl rfl
  · exact handleError_followsUp env o past ctx e

theorem conclude_followsUp (ctx : Context) (readiness : Option Span)
    (outcome : Except Error ReconcileVerdict) (h : Unready past → readiness.isSome = true) :
    FollowsUp env past (conclude o ctx readiness outcome) := by
  cases outcome with
  | ok verdict => exact applyUpdate_followsUp env o past verdict readiness h
  | error e => exact conclude_error_followsUp env o past ctx readiness e

theorem release_followsUp (ctx : Context) (h : ¬ Unready past) :
    FollowsUp env past (d.release o ctx) := by
  refine ⟨trivial, fun (verdict : Except Error CleanupVerdict) _ => ?_⟩
  simp only [Action.bind]
  rcases verdict with e | (_ | delay)
  · exact fun _ => Or.inl rfl
  · cases d.finalizer with
    | none => exact fun hunready => absurd hunready.before h
    | some f =>
      refine ⟨trivial, fun (r : Except Error ManagedObject) _ => ?_⟩
      simp only [Action.bind]
      cases ignoreNotFound r with
      | ok updated => exact fun hunready => absurd hunready.before.before h
      | error e => exact fun _ => Or.inl rfl
  · exact fun _ => Or.inr rfl

end Parts

/-- A result without errors says by itself whether it is to be looked at again. -/
theorem needsRecheck_of_unready {w : Workflow I} (hw : w.WellFormed) {env : Environment I σ}
    {mode : PassMode} {o : ManagedObject} {ctx : Context} {r r' : PassResult}
    (hpossible : DispatchCall.Possible env (.pass w mode o ctx) r) (hok : r.toExcept = .ok r')
    (hunready : r.allReady = false) : r.needsRecheck = true := by
  obtain ⟨calls, hcourse⟩ := hpossible
  rcases (hcourse.leaves hw rfl).asks hw hunready with herrors | hrecheck
  · rw [r.hasErrors_of_toExcept r' hok] at herrors
    cases herrors
  · exact hrecheck

section Whole
variable (d : Dispatcher I) (hformed : ∀ w, d.workflow = some w → w.WellFormed)
  (env : Environment I σ) (id : ResourceId) (o : ManagedObject) (ctx : Context)

include hformed in
/-- The reconcile of an active primary follows up on its pass. -/
theorem reconcile_followsUp :
    FollowsUp env [observation id (some o)] (d.reconcile o ctx) := by
  unfold reconcile
  cases hw : d.workflow with
  | none =>
    refine ⟨trivial, fun r _ => ?_⟩
    exact conclude_followsUp env o _ ctx none r fun hunready =>
      absurd hunready.before (not_unready_read id (some o))
  | some w =>
    refine ⟨trivial, fun (r : PassResult) hr => ?_⟩
    simp only [Action.bind]
    cases hoverall : r.toExcept with
    | error e => exact conclude_error_followsUp env o _ ctx none e
    | ok r' =>
      obtain rfl := eq_of_toExcept r r' hoverall
      refine ⟨trivial, fun verdict _ => ?_⟩
      refine conclude_followsUp env o _ _ _ verdict fun hunready => ?_
      rw [needsRecheck_of_unready (hformed w hw) hr hoverall hunready.before.of_passed]
      rfl

/-- So does the cleanup of a terminating one. -/
theorem cleanup_followsUp : FollowsUp env [observation id (some o)] (d.cleanup o ctx) := by
  unfold cleanup
  cases d.workflow with
  | none => exact d.release_followsUp env o _ ctx (not_unready_read id (some o))
  | some w =>
    refine ⟨trivial, fun (r : PassResult) _ => ?_⟩
    simp only [Action.bind]
    cases hoverall : r.toExcept with
    | error e => exact fun _ => Or.inl rfl
    | ok r' =>
      obtain rfl := eq_of_toExcept r r' hoverall
      dsimp only
      split
      · rename_i hready
        refine d.release_followsUp env o _ _ fun hunready => ?_
        rw [hunready.of_passed] at hready
        cases hready
      · exact fun _ => Or.inr rfl

include hformed in
/-- Whatever is answered, a dispatch with a pass that was not ready comes back. -/
theorem dispatch_followsUp (request : ReconciliationRequest) (retry : Option RetryInfo) :
    FollowsUp env [] (d.dispatch request retry) := by
  refine ⟨trivial, fun (found : Option ManagedObject) _ => ?_⟩
  simp only [Action.bind, List.nil_append]
  have hread := not_unready_read (I := I) request.id
  cases found with
  | none => exact fun hunready => absurd hunready (hread none)
  | some o =>
    dsimp only
    split
    · unfold cleanupTerminating
      cases d.missingFinalizer? o with
      | some f => exact fun hunready => absurd hunready (hread (some o))
      | none => exact d.cleanup_followsUp env request.id o _
    · unfold reconcileActive
      cases d.missingFinalizer? o with
      | some f => exact addFinalizer_followsUp env o _ f
      | none => exact d.reconcile_followsUp hformed env request.id o _

end Whole

/-- A pass that leaves nodes unsettled is never silent about it: its result has errors or asks to be
checked again. So a dispatch with such a pass ends with an error or with a delay after which it is
run again, whatever the reconciler says. -/
theorem unready_never_silent (p : WorkflowPlan I) (w : Workflow I) (hbuilt : p.build = .ok w)
    (env : Environment I σ) :
    (∀ mode o ctx r calls, (w.pass mode o ctx).Course env (.over r) calls →
      r.allReady = false → r.hasErrors = true ∨ r.needsRecheck = true) ∧
      ∀ d : Dispatcher I, d.workflow = some w → ∀ request retry past summary,
        (d.dispatch request retry).Leads (DispatchCall.Possible env) past (.done summary) →
          Unready past → summary.ComesBack := by
  have hw := (p.build_wellFormed w hbuilt).1
  refine ⟨fun mode o ctx r calls hcourse => (hcourse.leaves hw rfl).asks hw,
    fun d hd request retry past summary hleads => ?_⟩
  have hformed : ∀ w', d.workflow = some w' → w'.WellFormed := by
    intro w' hw'
    rw [hd] at hw'
    rw [← Option.some.inj hw']
    exact hw
  exact hleads.obeys (d.dispatch_followsUp hformed env request retry)

/-- A shop whose store does not open in time, so that its page is not even begun. -/
def rollout : WorkflowPlan parts where
  name := "rollout"
  nodes := [
    { openNode "store" [] with
      check := fun kind _ _ => some (.call ("store", .check kind) fun _ =>
        .done (.ok (kind ≠ .ready))) },
    openNode "page" ["store"]]

def rolledOut : Dispatcher parts where
  finalizer := none
  readinessRecheck := .zero
  workflow := some (rollout.ordered [0, 1])

def opening : ManagedObject := { leaving with deletionRequestedAt := none }

/-- The result of the reconcile pass of the shop. -/
def awaited : PassResult where
  mode := .reconcile
  declared := ["store", "page"]
  recorded := [("store", .notReady { created := 1 } "readiness condition not met")]

/-- The page has no outcome, the store is to be looked at again, and so is the primary. -/
theorem unready_never_silent_rollout :
    rollout.build = .ok (rollout.ordered [0, 1]) ∧ awaited.unreached = ["page"] ∧
      (awaited.hasErrors = true ∨ awaited.needsRecheck = true) ∧ ∃ past summary,
        (rolledOut.dispatch ⟨opening.id, []⟩ none).Leads (DispatchCall.Possible prompt) past
          (.done summary) ∧ Unready past ∧ summary.ComesBack := by
  have hnever := unready_never_silent rollout (rollout.ordered [0, 1]) rfl prompt
  have hpass : DispatchCall.Possible prompt
      (.pass (rollout.ordered [0, 1]) .reconcile opening { primary := opening.id }) awaited :=
    ⟨_, .settle _ _ .begin 0 ()⟩
  have hstart : (rolledOut.dispatch ⟨opening.id, []⟩ none).Leads (DispatchCall.Possible prompt)
    [] (rolledOut.dispatch ⟨opening.id, []⟩ none) := .start
  have hread := hstart.answer _ _ _ (some opening) trivial
  have hpassed := hread.answer _ _ _ awaited hpass
  have hagreed := hpassed.answer _ _ _ (.ok {} : Except Error ReconcileVerdict) trivial
  have hunready : Unready ([observation opening.id (some opening),
      passed (rollout.ordered [0, 1]) .reconcile opening { primary := opening.id } awaited,
      ⟨.primary (.reconcile opening { primary := opening.id, passResult := some awaited }),
        (.ok {} : Except Error ReconcileVerdict)⟩] : Past parts) :=
    ⟨_, _, _, _, awaited, List.mem_cons_of_mem _ List.mem_cons_self, rfl⟩
  obtain ⟨calls, hcourse⟩ := hpass
  exact ⟨rfl, rfl, hnever.1 _ _ _ awaited calls hcourse rfl, _, _, hagreed, hunready,
    hnever.2 rolledOut rfl _ _ _ _ hagreed hunready⟩

end Dispatcher
end Reconciliation
