import Reconciliation.Proofs.Task.Invariant
import Reconciliation.Proofs.Workflow.Passage
import Reconciliation.Proofs.Workflow.Report

/-!
Passes in an environment that may answer anything. A pass keeps every invariant that the parts of
its nodes keep, at whatever times it goes on. Whatever the visits return, its result names every
node as declared and holds one outcome at most for each of them.
-/
namespace Reconciliation

/-- The outcomes that the visits of a mode report: only a reconcile visit marks its node. -/
def PassMode.Allows (mode : PassMode) (o : NodeOutcome) : Prop :=
  mode = .cleanup → o.isDeleted = false

namespace Node
variable {I : Interface} {σ : Type}

/-- A gate keeps the invariant if its condition and what it lets through do. -/
theorem gate_ensures {env : Environment I σ} {inv : σ → Prop} {post : NodeOutcome → Prop}
    (check : Option (Action I (Except Error Bool)))
    (hcheck : ∀ evaluate, check = some evaluate → evaluate.Ensures env inv fun _ => True)
    (operations : Operations) (closed : NodeOutcome) (proceed : Task I Error NodeOutcome)
    (hfailed : ∀ reason, post (.notReady operations reason)) (hclosed : post closed)
    (hproceed : proceed.Ensures env inv post) :
    (gate check operations closed proceed).Ensures env inv post := by
  cases check with
  | none => exact hproceed
  | some evaluate =>
    have hevaluate := hcheck evaluate rfl
    refine (Task.ensures_ofAction hevaluate).bind fun outcome _ => ?_
    cases outcome with
    | error e => exact hfailed e.message
    | ok holds =>
      cases holds with
      | true => exact hproceed
      | false => exact hclosed

/-- The parts of the node that a pass of this mode may use keep the invariant. -/
structure Keeps (env : Environment I σ) (inv : σ → Prop) (mode : PassMode)
    (primary : ManagedObject) (ctx : Context) (n : Node I) : Prop where
  check : ∀ kind evaluate, n.check kind primary ctx = some evaluate →
    evaluate.Ensures env inv fun _ => True
  reconcile : mode = .reconcile → (n.reconcile primary ctx).Ensures env inv fun _ => True
  delete : (n.delete primary ctx).Ensures env inv fun _ => True

section Visits
variable {env : Environment I σ} {inv : σ → Prop} {mode : PassMode} {primary : ManagedObject}
  {ctx : Context} {n : Node I}

theorem Keeps.reconcileVisit (h : n.Keeps env inv .reconcile primary ctx) :
    (n.reconcileVisit primary ctx).Ensures env inv PassMode.reconcile.Allows := by
  have hany : ∀ o, PassMode.reconcile.Allows o := fun _ h => nomatch h
  refine gate_ensures _ (h.check _) {} _ _ (fun _ => hany _) (hany _) ?_
  refine gate_ensures _ (h.check _) {} _ _ (fun _ => hany _) (hany _) ?_
  refine (h.reconcile rfl).bind fun outcome _ => ?_
  cases outcome with
  | error e => exact hany _
  | ok operations =>
    exact gate_ensures _ (h.check _) operations _ _ (fun _ => hany _) (hany _) (hany _)

theorem Keeps.cleanupVisit (h : n.Keeps env inv mode primary ctx) :
    (n.cleanupVisit primary ctx).Ensures env inv PassMode.cleanup.Allows := by
  refine gate_ensures _ (h.check _) {} _ _ (fun _ _ => rfl) (fun _ => rfl) ?_
  refine gate_ensures _ (h.check _) {} _ _ (fun _ _ => rfl) (fun _ => rfl) ?_
  refine h.delete.bind fun outcome _ => ?_
  cases outcome <;> exact fun _ => rfl

/-- A pass visits nodes in its own mode, and in cleanup mode those that it has marked. -/
theorem Keeps.visit (h : n.Keeps env inv mode primary ctx) (m : PassMode)
    (hm : m = mode ∨ m = .cleanup) :
    (n.visit m primary ctx).Ensures env inv m.Allows := by
  cases m with
  | cleanup => exact h.cleanupVisit
  | reconcile =>
    rcases hm with rfl | hm
    · exact h.reconcileVisit
    · cases hm

end Visits
end Node

namespace Walk
variable {I : Interface} {σ τ : Type}

/-- The walk is tidy whatever its outcomes are, and the visits under way keep the invariant. -/
structure Steady (w : Walk I) (env : Environment I σ) (inv : σ → Prop) (d : Ongoing I) :
    Prop where
  tidy : ∃ outcome, w.Tidy outcome d
  running : ∀ e ∈ d.running, e.2.Ensures env inv w.mode.Allows
  allowed : ∀ e ∈ d.completed, w.mode.Allows e.2

theorem steady_begin (w : Walk I) (hw : w.workflow.WellFormed) (env : Environment I σ)
    (inv : σ → Prop) : w.Steady env inv w.begin :=
  ⟨⟨fun _ => default, w.tidy_begin hw _⟩, fun _ h => absurd h List.not_mem_nil,
    fun _ h => absurd h List.not_mem_nil⟩

/-- An outcome that is noted is one that the mode of the walk allows. -/
theorem steady_note {w : Walk I} (hw : w.workflow.WellFormed) {env : Environment I σ}
    {inv : σ → Prop} {outcome : Nat → NodeOutcome} {d : Ongoing I} (h : w.Tidy outcome d) (i : Nat)
    (hi : i ∈ d.running.map (·.1))
    (hothers : ∀ e ∈ d.running, e.1 ≠ i → e.2.Ensures env inv w.mode.Allows)
    (hallowed : ∀ e ∈ d.completed, w.mode.Allows e.2)
    (q : Task.Progress I Error NodeOutcome) (hq : q.Ensures env inv w.mode.Allows) :
    w.Steady env inv (w.note d i q) := by
  have hupdated : ∀ e ∈ (d.update i q).running, e.2.Ensures env inv w.mode.Allows := by
    intro e he
    rcases d.mem_running_update i q e he with rfl | ⟨hold, hne⟩
    · exact hq
    · exact hothers e hold hne
  unfold note
  cases hvalue : q.value? with
  | none => exact ⟨⟨outcome, h.update i q⟩, hupdated, hallowed⟩
  | some o =>
    have hkey : i ∈ (d.update i q).running.map (·.1) := by rwa [Drive.keys_update]
    refine ⟨⟨_, (h.update i q).finish_any hw i hkey o⟩, fun e he => ?_, fun e he => ?_⟩
    · exact hupdated e (List.mem_filter.mp he).1
    · rcases List.mem_append.mp he with hold | hnew
      · exact hallowed e hold
      · rw [List.mem_singleton.mp hnew]
        exact hq.value hvalue

/-- One step of the walk: one visit goes on or starts, and the others are as they were. -/
theorem Steady.goes {w : Walk I} (hw : w.workflow.WellFormed) {env : Environment I σ}
    {inv : σ → Prop} (visit : Nat → Task I Error NodeOutcome)
    (hvisit : ∀ i, (visit i).Ensures env inv w.mode.Allows) (d : Ongoing I) (s : σ)
    (d' : Ongoing I) (s' : σ) (h : w.Steady env inv d ∧ inv s)
    (hgoes : w.Goes visit env (d, s) (d', s')) : w.Steady env inv d' ∧ inv s' := by
  obtain ⟨hsteady, hs⟩ := h
  obtain ⟨outcome, htidy⟩ := hsteady.tidy
  cases hgoes with
  | resume _ _ i p hp now =>
    obtain ⟨hresumed, hkept⟩ := (hsteady.running (i, p) hp).resume now s hs
    exact ⟨steady_note hw htidy i (List.mem_map_of_mem hp)
      (fun e he _ => hsteady.running e he) hsteady.allowed _ hresumed, hkept⟩
  | start _ _ i rest hwait hroom now =>
    obtain ⟨hstarted, hkept⟩ := (hvisit i).advance now s hs
    refine ⟨steady_note hw (htidy.start i rest _ hwait) i ?_ (fun e he hne => ?_) hsteady.allowed _
      hstarted, hkept⟩
    · exact List.mem_map_of_mem (List.mem_append_right _ (List.mem_singleton_self _))
    · rcases List.mem_append.mp he with hold | hnew
      · exact hsteady.running e hold
      · exact absurd (congrArg Prod.fst (List.mem_singleton.mp hnew)) hne

/-- A walk that settles keeps the invariant and stays steady. -/
theorem Steady.settle {w : Walk I} (hw : w.workflow.WellFormed) {env : Environment I σ}
    {inv : σ → Prop} (visit : Nat → Task I Error NodeOutcome)
    (hvisit : ∀ i, (visit i).Ensures env inv w.mode.Allows) (now : Nat) (d : Ongoing I)
    (h : w.Steady env inv d) (s : σ) (hs : inv s) :
    w.Steady env inv (w.settle visit env now d s).1 ∧ inv (w.settle visit env now d s).2 := by
  obtain ⟨_, htidy⟩ := h.tidy
  exact w.settle_keeps visit env (fun d s => w.Steady env inv d ∧ inv s)
    (Steady.goes hw visit hvisit) now d htidy.keys_nodup s ⟨h, hs⟩

end Walk

namespace Pass
variable {I : Interface} {σ : Type}

/-- A pass in its walk over all nodes, or in the one that deletes what that walk left marked. -/
inductive OnWay (w : Workflow I) (env : Environment I σ) (inv : σ → Prop)
    (primary : ManagedObject) (ctx : Context) : PassMode → Pass I → Prop
  | walking (mode : PassMode) (d : Walk.Ongoing I) (h : (w.walk mode).Steady env inv d) :
      OnWay w env inv primary ctx mode (w.walking mode primary ctx d)
  | removing (outcome : Nat → NodeOutcome) (completed : List (Nat × NodeOutcome))
      (d : Walk.Ongoing I) (hover : (w.walk .reconcile).Finished outcome completed)
      (h : (w.removal (w.marked completed)).Steady env inv d) :
      OnWay w env inv primary ctx .reconcile (w.removing completed primary ctx d)

/-- What a pass has come to: a result for its workflow, or a pass that is still on its way. -/
def ComesTo (w : Workflow I) (env : Environment I σ) (inv : σ → Prop) (primary : ManagedObject)
    (ctx : Context) (mode : PassMode) : Standing (Pass I) PassResult → Prop
  | .over r => w.Leaves mode r
  | .going q => OnWay w env inv primary ctx mode q

/-- In a walk of the mode of the pass, or of the one that deletes, the visits keep the invariant. -/
theorem visit_ensures {w : Workflow I} {env : Environment I σ} {inv : σ → Prop}
    {primary : ManagedObject} {ctx : Context} {mode : PassMode}
    (hkeeps : ∀ n ∈ w.nodes, n.node.Keeps env inv mode primary ctx) (W : Walk I)
    (hworkflow : W.workflow = w) (hmode : W.mode = mode ∨ W.mode = .cleanup) (i : Nat) :
    (W.visit primary ctx i).Ensures env inv W.mode.Allows := by
  unfold Walk.visit
  cases hn : W.workflow.nodeAt? i with
  | some n => exact (hkeeps n (List.mem_of_getElem? (hworkflow ▸ hn))).visit W.mode hmode
  | none => exact fun _ => rfl

section Kept
variable {w : Workflow I} (hw : w.WellFormed) {env : Environment I σ} {inv : σ → Prop}
  {primary : ManagedObject} {ctx : Context} {mode : PassMode}
include hw

theorem onWay_pass : OnWay w env inv primary ctx mode (w.pass mode primary ctx) :=
  .walking mode _ ((w.walk mode).steady_begin hw env inv)

variable (hkeeps : ∀ n ∈ w.nodes, n.node.Keeps env inv mode primary ctx)
include hkeeps

/-- A pass that deletes marked nodes goes on with that, or comes to its result. -/
theorem settle_removing_onWay (hreconcile : mode = .reconcile) (outcome : Nat → NodeOutcome)
    (completed : List (Nat × NodeOutcome)) (d : Walk.Ongoing I)
    (hover : (w.walk .reconcile).Finished outcome completed)
    (h : (w.removal (w.marked completed)).Steady env inv d) (now : Nat) (s : σ) (hs : inv s) :
    ComesTo w env inv primary ctx mode
        ((w.removing completed primary ctx d).settle env now s).1 ∧
      inv ((w.removing completed primary ctx d).settle env now s).2 := by
  obtain ⟨hsteady, hkept⟩ := h.settle hw _
    (visit_ensures hkeeps (w.removal (w.marked completed)) rfl (Or.inr rfl)) now d s hs
  rw [hreconcile]
  cases hfinal : (removed w env primary ctx now d s completed).1.isOver with
  | true =>
    rw [settle_removing_over w env primary ctx now d s completed hfinal]
    obtain ⟨cleaned, htidy⟩ := hsteady.tidy
    exact ⟨.removed outcome cleaned completed _ hover (htidy.finished hfinal), hkept⟩
  | false =>
    rw [settle_removing_going w env primary ctx now d s completed hfinal]
    exact ⟨.removing outcome completed _ hover hsteady, hkept⟩

/-- The walk over all nodes, and the removal of marked nodes that may follow at the same time. -/
theorem settle_walking_onWay (d : Walk.Ongoing I) (h : (w.walk mode).Steady env inv d) (now : Nat)
    (s : σ) (hs : inv s) :
    ComesTo w env inv primary ctx mode ((w.walking mode primary ctx d).settle env now s).1 ∧
      inv ((w.walking mode primary ctx d).settle env now s).2 := by
  obtain ⟨hsteady, hkept⟩ := h.settle hw _
    (visit_ensures hkeeps (w.walk mode) rfl (Or.inl rfl)) now d s hs
  cases hfinal : (walked w env primary ctx now d s mode).1.isOver with
  | false =>
    rw [settle_walking_going w env primary ctx now d s mode hfinal]
    exact ⟨.walking mode _ hsteady, hkept⟩
  | true =>
    obtain ⟨outcome, htidy⟩ := hsteady.tidy
    have hover := htidy.finished hfinal
    cases mode with
    | cleanup =>
      rw [settle_walking_last w env primary ctx now d s .cleanup hfinal (Or.inl rfl)]
      exact ⟨.cleaned outcome _ hover fun e he => hsteady.allowed e he rfl, hkept⟩
    | reconcile =>
      by_cases hmarked : w.marked (walked w env primary ctx now d s .reconcile).1.completed = []
      · rw [settle_walking_last w env primary ctx now d s .reconcile hfinal (Or.inr hmarked)]
        exact ⟨.reconciled outcome _ hover hmarked, hkept⟩
      · rw [settle_walking_marked w env primary ctx now d s hfinal hmarked]
        exact settle_removing_onWay hw hkeeps rfl outcome _ _ hover
          ((w.removal (w.marked _)).steady_begin hw env inv) now _ hkept

/-- Whatever a pass comes to at a time, the invariant is kept. -/
theorem OnWay.settle {p : Pass I} (h : OnWay w env inv primary ctx mode p) (now : Nat) (s : σ)
    (hs : inv s) :
    ComesTo w env inv primary ctx mode (p.settle env now s).1 ∧ inv (p.settle env now s).2 := by
  cases h with
  | walking _ d h => exact settle_walking_onWay hw hkeeps d h now s hs
  | removing outcome completed d hover h =>
    exact settle_removing_onWay hw hkeeps rfl outcome completed d hover h now s hs

/-- The invariant holds however far a pass has come, and any result reports on its workflow. -/
theorem OnWay.finish (fuel : Nat) {p : Pass I} (h : OnWay w env inv primary ctx mode p)
    (now : Nat) (s : σ) (hs : inv s) :
    inv (p.finish env fuel now s).2.2 ∧
      ∀ r, (p.finish env fuel now s).1 = some r → w.Reports r := by
  induction fuel generalizing p now s with
  | zero =>
    refine ⟨hs, fun r hr => ?_⟩
    cases hr
  | succ fuel ih =>
    obtain ⟨hstands, hkept⟩ := h.settle hw hkeeps now s hs
    unfold Pass.finish
    rcases hsettle : p.settle env now s with ⟨q | r, s'⟩
    · rw [hsettle] at hstands hkept
      dsimp only
      cases q.dues.min? with
      | some due => exact ih hstands due s' hkept
      | none =>
        refine ⟨hkept, fun r hr => ?_⟩
        cases hr
    · rw [hsettle] at hstands hkept
      refine ⟨hkept, fun r' hr => ?_⟩
      rw [← Option.some.inj hr]
      exact Workflow.Leaves.reports hw hstands

end Kept
end Pass
end Reconciliation
