import Reconciliation.Proofs.Dispatch.Reasons
import Reconciliation.Proofs.Scheduler.Retrying
import Reconciliation.Proofs.Workflow.Failures

/-!
Dispatches whose pass failed. The pass fails with the errors of its nodes, so the calls that failed
in the work on nodes decide whether it counts as a conflict. A dispatch passes a conflict on without
asking the reconciler, and the scheduler repeats it at once and counts no attempt.
-/
namespace Reconciliation

def FailedCall.error : FailedCall → Error
  | inCondition e | inWork e => e

/-- The class of a failed dispatch. -/
def DispatchSummary.failureClass? (summary : DispatchSummary) : Option FailureClass :=
  summary.error.map fun e => Scheduler.classOf e summary.noRetry

/-- The identity waits for a dispatch again. A conflict was counted, but no attempt. -/
structure Scheduler.Repeats (s : Scheduler) (id : ResourceId) (st : IdentityState)
    (s' : Scheduler) : Prop where
  enqueued : s' = ({ s with stats := { s.stats with
    failed := s.stats.failed + 1
    conflicts := s.stats.conflicts + 1 } }).enqueue id
      ({ st with inFlight := false }.markEvent .retry)
  retry_eq : ({ st with inFlight := false }.markEvent .retry).retry = st.retry

/-- The end of a dispatch with a conflict repeats it at once and counts no attempt. -/
theorem Scheduler.finished_repeats {s : Scheduler} {id : ResourceId} {st : IdentityState}
    (hst : s.stateOf? id = some st) (hpresent : st.isDeleted = false) {summary : DispatchSummary}
    {e : Error} (herror : summary.error = some e)
    (hclass : classOf e summary.noRetry = .conflict) :
    s.Repeats id st (s.finished id summary) where
  enqueued := by
    have hfree : ({ st with inFlight := false } : IdentityState).isDeleted = false := hpresent
    unfold finished afterFailure
    rw [hst, herror]
    dsimp only
    rw [hfree, hclass]
    rfl
  retry_eq := IdentityState.retry_markEvent _ _

namespace Dispatcher
variable {I : Interface} {σ : Type}

/-- How a dispatch goes on once its pass has failed. A conflict ends it, and so does every failure
of a cleanup; the reconciler is asked about any other one. -/
inductive Fails (o : ManagedObject) (ctx : Context) (e : Error) :
    PassMode → Past I → DispatchSummary → Prop
  | conflict (mode : PassMode) (h : e.isConflict = true) : Fails o ctx e mode [] (.failed e)
  | cleanup (h : e.isConflict = false) : Fails o ctx e .cleanup [] (.failed e)
  | advised (h : e.isConflict = false) (v : FailureVerdict) (rest : Past I)
      (summary : DispatchSummary) (herror : summary.error = some e)
      (hretry : summary.noRetry = !v.retry) :
      Fails o ctx e .reconcile (advice o ctx e v :: rest) summary

/-- An error that is not passed on is told to the reconciler, whose advice the summary keeps to. -/
theorem handleError_advised (possible : (c : DispatchCall I) → c.Reply → Prop) (o : ManagedObject)
    (ctx : Context) (e : Error) :
    Action.Obeys (I := dispatching I) possible (fun _ _ => True)
      (fun past summary => ∃ v rest, past = advice o ctx e v :: rest ∧
        summary.error = some e ∧ summary.noRetry = !v.retry) [] (handleError o ctx e) := by
  refine ⟨trivial, fun (v : FailureVerdict) _ => ?_⟩
  simp only [Action.bind]
  cases v.status with
  | none => exact ⟨v, [], rfl, rfl, rfl⟩
  | some status =>
    refine ⟨trivial, fun (r : Except Error ManagedObject) _ => ?_⟩
    cases r <;> exact ⟨v, [_], rfl, rfl, rfl⟩

theorem Licensed.of_pass {d : Dispatcher I} {id : ResourceId} {past : Past I} {w : Workflow I}
    {mode : PassMode} {o : ManagedObject} {ctx : Context}
    (h : d.Licensed id past (.pass w mode o ctx)) :
    past = [observation id (some o)] ∧ d.missingFinalizer? o = none ∧ d.workflow = some w ∧
      (mode = .reconcile ↔ o.isTerminating = false) := by
  cases h with
  | pass _ hholds _ hw _ hmode _ => exact ⟨rfl, hholds, hw, hmode⟩

/-- What is left of a dispatch when its pass has failed. -/
def afterFailedPass (mode : PassMode) (o : ManagedObject) (ctx : Context) (e : Error) :
    Dispatching I DispatchSummary :=
  match mode with
  | .reconcile => conclude o ctx none (.error e)
  | .cleanup => .done (.failed e)

/-- What comes after a failed pass of a dispatch. -/
theorem fails_of_leads {possible : (c : DispatchCall I) → c.Reply → Prop} {mode : PassMode}
    {o : ManagedObject} {ctx : Context} {e : Error} {rest : Past I} {summary : DispatchSummary}
    (h : Action.Leads (I := dispatching I) possible (afterFailedPass mode o ctx e) rest
      (.done summary)) : Fails o ctx e mode rest summary := by
  cases mode with
  | cleanup =>
    obtain ⟨rfl, hsummary⟩ := Action.Leads.of_done h
    cases hsummary
    cases hconflict : e.isConflict with
    | true => exact .conflict .cleanup hconflict
    | false => exact .cleanup hconflict
  | reconcile =>
    unfold afterFailedPass conclude at h
    dsimp only at h
    cases hconflict : e.isConflict with
    | true =>
      rw [hconflict] at h
      obtain ⟨rfl, hsummary⟩ := Action.Leads.of_done h
      cases hsummary
      exact .conflict .reconcile hconflict
    | false =>
      rw [hconflict] at h
      obtain ⟨v, rest, rfl, herror, hretry⟩ := h.obeys (handleError_advised possible o ctx e)
      exact .advised hconflict v rest summary herror hretry

section
variable {d : Dispatcher I} {env : Environment I σ} {request : ReconciliationRequest}
  {retry : Option RetryInfo} {past : Past I} {summary : DispatchSummary} {w : Workflow I}
  {mode : PassMode} {o : ManagedObject} {ctx : Context} {r : PassResult}

/-- After a pass with an error only the handling of that error is left. -/
theorem left_of_call {ctx' : Context} {k : PassResult → Dispatching I DispatchSummary} {e : Error}
    (hholds : d.missingFinalizer? o = none) (hw : d.workflow = some w)
    (hmode : mode = .reconcile ↔ o.isTerminating = false) (he : r.toExcept = .error e)
    (hcall : (if o.isTerminating = true then d.cleanupTerminating o ctx'
      else d.reconcileActive o ctx') = .call (.pass w mode o ctx) k) :
    k r = afterFailedPass mode o ctx e := by
  cases hterminating : o.isTerminating with
  | false =>
    obtain rfl := hmode.mpr hterminating
    rw [hterminating, if_neg Bool.false_ne_true, reconcileActive, hholds] at hcall
    unfold reconcile at hcall
    rw [hw] at hcall
    cases hcall
    simp only [Action.bind]
    rw [he]
    rfl
  | true =>
    obtain rfl : mode = .cleanup := by
      cases mode with
      | cleanup => rfl
      | reconcile => cases hterminating.symm.trans (hmode.mp rfl)
    rw [hterminating, if_pos rfl, cleanupTerminating, hholds] at hcall
    unfold cleanup at hcall
    rw [hw] at hcall
    cases hcall
    simp only [Action.bind]
    rw [he]
    rfl

/-- A dispatch looks at its primary, makes its pass, and then is over or asks about the failure. -/
theorem fails_of_passed (hformed : ∀ w, d.workflow = some w → w.WellFormed)
    (hleads : (d.dispatch request retry).Leads (DispatchCall.Possible env) past (.done summary))
    (hpassed : passed w mode o ctx r ∈ past) (e : Error) (he : r.toExcept = .error e) :
    ∃ rest, past = observation request.id (some o) :: passed w mode o ctx r :: rest ∧
      Fails o ctx e mode rest summary := by
  obtain ⟨before, rest, hpast⟩ := List.append_of_mem hpassed
  obtain ⟨k, hbefore, _, hrest⟩ := hleads.split before rest _ hpast
  have hkeeps := hbefore.obeys (d.dispatch_keepsTo env hformed request retry)
  -- A pass is licensed by the first look at the primary and by nothing else.
  obtain ⟨rfl, hholds, hw, hmode⟩ := Licensed.of_pass hkeeps.1
  obtain ⟨first, hfirst, _, hpass⟩ :=
    hbefore.split [] [] (observation request.id (some o)) rfl
  have hleft : k r = afterFailedPass mode o ctx e := by
    have hdispatch := hfirst.of_nil
    cases hdispatch
    exact left_of_call hholds hw hmode he hpass.of_nil.symm
  have hrest : Action.Leads (I := dispatching I) (DispatchCall.Possible env) (k r) rest
    (.done summary) := hrest
  rw [hleft] at hrest
  exact ⟨rest, hpast, fails_of_leads hrest⟩

end

/-- A dispatch with a failed pass counts as a conflict just if the pass does. -/
theorem Fails.failureClass?_eq_conflict_iff {o : ManagedObject} {ctx : Context} {e : Error}
    {mode : PassMode} {rest : Past I} {summary : DispatchSummary}
    (h : Fails o ctx e mode rest summary) :
    summary.failureClass? = some .conflict ↔ e.isConflict = true := by
  unfold DispatchSummary.failureClass? Scheduler.classOf
  cases h with
  | conflict mode hconflict =>
    exact iff_of_true (congrArg some ((FailureClass.ofError_eq_conflict_iff e).mpr hconflict))
      hconflict
  | cleanup hconflict =>
    rw [← FailureClass.ofError_eq_conflict_iff]
    exact Option.some_inj
  | advised hconflict v rest summary herror hretry =>
    rw [herror, hconflict]
    refine iff_of_false (fun hclass => ?_) Bool.false_ne_true
    have hclass := Option.some.inj hclass
    split at hclass
    · cases hclass
    · rw [FailureClass.ofError_eq_conflict_iff, hconflict] at hclass
      cases hclass

/-- What becomes of a dispatch whose pass has failed. It counts as a conflict if and only if all
leaves do of the calls that failed in the work on nodes; then nobody is asked about it, and it is
repeated at once. -/
structure Decided (id : ResourceId) (o : ManagedObject) (ctx : Context) (mode : PassMode)
    (r : PassResult) (log : List FailedCall) (rest : Past I) (summary : DispatchSummary) :
    Prop where
  fails : Fails o ctx (.dependents r.errored) mode rest summary
  conflict_iff : summary.failureClass? = some .conflict ↔
    ∀ e, .inWork e ∈ log → e.LeavesConflict
  plain_conflict_iff : (∀ e, .inWork e ∈ log → e.isBundle = false) →
    (summary.failureClass? = some .conflict ↔ ∀ e, .inWork e ∈ log → e.isVersionConflict = true)
  unasked : summary.failureClass? = some .conflict → rest = []
  repeats : summary.failureClass? = some .conflict → ∀ (s : Scheduler) (st : IdentityState),
    s.stateOf? id = some st → st.isDeleted = false → s.Repeats id st (s.finished id summary)

/-- So the leaves of the calls that failed decide what becomes of it. -/
theorem Fails.decided {o : ManagedObject} {ctx : Context} {mode : PassMode} {r : PassResult}
    {rest : Past I} {summary : DispatchSummary}
    (h : Fails o ctx (.dependents r.errored) mode rest summary) {log : List FailedCall}
    (hlog : (Error.dependents r.errored).isConflict = true ↔
      ∀ e, .inWork e ∈ log → e.isConflict = true) (id : ResourceId) :
    Decided id o ctx mode r log rest summary where
  fails := h
  conflict_iff := by
    simp only [h.failureClass?_eq_conflict_iff, hlog, Error.isConflict_iff_leaves]
  plain_conflict_iff := by
    intro hplain
    rw [h.failureClass?_eq_conflict_iff, hlog]
    refine forall_congr' fun e => forall_congr' fun he => ?_
    rw [e.isConflict_of_plain (hplain e he)]
  unasked := by
    intro hclass
    have hconflict := h.failureClass?_eq_conflict_iff.mp hclass
    cases h with
    | conflict | cleanup => rfl
    | advised hfree => exact absurd (hconflict.symm.trans hfree) nofun
  repeats := by
    intro hclass s st hst hpresent
    obtain ⟨e, herror, hclass⟩ := Option.map_eq_some_iff.mp hclass
    exact Scheduler.finished_repeats hst hpresent herror hclass

/-- What the adapters of a stockroom do. -/
inductive StockCall where
  | look (name : String)
  | put (name : String)

def stock : Interface := ⟨StockCall, fun _ => Except Error Unit⟩

def look {α : Type} (name : String) (found : α) : Action stock (Except Error α) :=
  .call (.look name) fun (r : Except Error Unit) => .done (r.map fun _ => found)

def put (name : String) : Action stock (Except Error Unit) := Action.ask (I := stock) (.put name)

def shelf : Dependent stock Nat where
  name := "shelf"
  adapter := .singleton (fun _ _ => look "shelf" none) (some {
    desired := fun _ _ => .done (.ok 1)
    agrees := (· == ·)
    create := fun _ _ _ => put "shelf"
    update := fun _ _ _ _ => .done (.ok ())
    delete := fun _ _ _ => .done (.ok ()) })

def drawers : Dependent stock Nat where
  name := "drawers"
  adapter := .bulk (fun _ _ => look "drawers" .empty) (some {
    desired := fun _ _ => .done (.ok (.ofList [("a", 1), ("b", 2)]))
    agrees := (· == ·)
    create := fun key _ _ _ => put key
    update := fun _ _ _ _ _ => .done (.ok ())
    delete := fun _ _ _ _ => .done (.ok ()) })

/-- A cellar that is stocked only when it is there already. -/
def cellar : Dependent stock Nat where
  name := "cellar"
  adapter := .singleton (fun _ _ => look "cellar" none) none
  condition? kind := if kind = .activation then some .present else none

def stockroom : WorkflowPlan stock where
  name := "stockroom"
  nodes := [shelf.toNode, drawers.toNode, cellar.toNode]

theorem stockroom_dependents :
    ∀ n ∈ stockroom.nodes, ∃ (R : Type) (d : Dependent stock R), n = d.toNode :=
  List.forall_mem_cons.mpr ⟨⟨Nat, shelf, rfl⟩, List.forall_mem_cons.mpr
    ⟨⟨Nat, drawers, rfl⟩, List.forall_mem_singleton.mpr ⟨Nat, cellar, rfl⟩⟩⟩

def stockroomOverheard : WorkflowPlan (stock.noticing FailedCall) where
  name := "stockroom"
  nodes := [shelf.overheard, drawers.overheard, cellar.overheard]

theorem stockroom_overhears :
    (stockroomOverheard.ordered [2, 1, 0]).Overhears (stockroom.ordered [2, 1, 0]) where
  muted := by
    unfold Workflow.muted WorkflowPlan.ordered stockroomOverheard stockroom
    simp only [List.mapIdx_cons, List.mapIdx_nil, List.map_cons, List.map_nil, WorkflowPlan.place,
      Dependent.muted_overheard]
    rfl
  nodes := by
    have hall : ∀ n ∈ stockroomOverheard.nodes,
        ∃ (R : Type) (d : Dependent stock R), n = d.overheard :=
      List.forall_mem_cons.mpr ⟨⟨Nat, shelf, rfl⟩, List.forall_mem_cons.mpr
        ⟨⟨Nat, drawers, rfl⟩, List.forall_mem_singleton.mpr ⟨Nat, cellar, rfl⟩⟩⟩
    have hnodes := stockroomOverheard.ordered_nodes [2, 1, 0]
    exact fun n hn => hall n.node (hnodes ▸ List.mem_map_of_mem hn)

def taken (name : String) : Error := .conflict ⟨"Stock", none, name⟩ ⟨1⟩ ⟨2⟩

/-- Somebody else has stocked everything, and the cellar is locked. -/
def contested : Environment stock Unit := .prompt fun
  | .look name, s => (if name = "cellar" then .error (.adapter name "locked") else .ok (), s)
  | .put name, s => (.error (taken name), s)

def stocktaking : Dispatcher stock where
  finalizer := none
  readinessRecheck := .zero
  workflow := some (stockroom.ordered [2, 1, 0])

/-- The result of the reconcile pass of the stockroom. -/
def disputed : PassResult where
  mode := .reconcile
  declared := ["cellar", "drawers", "shelf"]
  recorded := [
    ("cellar", .notReady {} ("condition on 'cellar' could not be evaluated: " ++
      "activation: dependent 'cellar' failed: locked")),
    ("drawers", .errored (.dependents
      [("drawers[a]", taken "a"), ("drawers[b]", taken "b")])),
    ("shelf", .errored (taken "shelf"))]

def disputedLog : List FailedCall :=
  [.inCondition (.adapter "cellar" "locked"), .inWork (taken "a"), .inWork (taken "b"),
    .inWork (taken "shelf")]

def newStock : ManagedObject where
  id := ⟨"Shop", none, "corner"⟩
  spec := .null

theorem disputed_heard : ((stockroomOverheard.ordered [2, 1, 0]).pass .reconcile newStock
    { primary := newStock.id }).Heard contested disputedLog (.over disputed) :=
  .settle [] _ .begin 0 () _ () _ rfl

/-- The dispatch of the new stock ends with its pass. -/
theorem disputed_leads : (stocktaking.dispatch ⟨newStock.id, []⟩ none).Leads
    (DispatchCall.Possible contested)
    [observation newStock.id (some newStock),
      passed (stockroom.ordered [2, 1, 0]) .reconcile newStock { primary := newStock.id } disputed]
    (.done (.failed (.dependents disputed.errored))) := by
  have hstart : (stocktaking.dispatch ⟨newStock.id, []⟩ none).Leads
    (DispatchCall.Possible contested) [] (stocktaking.dispatch ⟨newStock.id, []⟩ none) := .start
  have hread := hstart.answer _ _ _ (some newStock) trivial
  have hpass : DispatchCall.Possible contested (.pass (stockroom.ordered [2, 1, 0]) .reconcile
      newStock { primary := newStock.id }) disputed := ⟨_, .settle _ _ .begin 0 ()⟩
  exact hread.answer _ _ _ disputed hpass

end Dispatcher
end Reconciliation
