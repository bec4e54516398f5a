import Reconciliation.Proofs.Workflow.Clearing
import Reconciliation.Proofs.Workflow.Refinement

/-!
Reconcile preconditions in a cleanup pass. The visits of the pass do not look at them, and nothing
else in a workflow depends on what its nodes do; so other preconditions make the same workflow in
every respect that the pass can tell.
-/
namespace Reconciliation

/-- Any preconditions for the nodes of a declaration. -/
abbrev Preconditions (I : Interface) :=
  Node I → ManagedObject → Context → Option (Action I (Except Error Bool))

section
variable {I : Interface}

/-- The same node with another reconcile precondition. -/
def Node.withPrecondition (f : Preconditions I) (n : Node I) : Node I where
  name := n.name
  dependsOn := n.dependsOn
  capability := n.capability
  check
    | .reconcilePrecondition => f n
    | kind => n.check kind
  reconcile := n.reconcile
  delete := n.delete

def WorkflowPlan.withPreconditions (f : Preconditions I) (p : WorkflowPlan I) : WorkflowPlan I :=
  { p with nodes := p.nodes.map (Node.withPrecondition f) }

/-- The same workflow with other reconcile preconditions. -/
def Workflow.withPreconditions (f : Preconditions I) (w : Workflow I) : Workflow I :=
  { w with nodes := w.nodes.map fun n => { n with node := n.node.withPrecondition f } }

end

namespace WorkflowPlan
variable {I : Interface} (f : Preconditions I) (p : WorkflowPlan I)

theorem names_withPreconditions :
    (p.withPreconditions f).nodes.map (·.name) = p.nodes.map (·.name) := by
  unfold withPreconditions
  rw [List.map_map]
  rfl

theorem graph_withPreconditions : (p.withPreconditions f).graph = p.graph := by
  unfold graph
  rw [names_withPreconditions]
  unfold withPreconditions
  rw [List.foldl_map, List.length_map]
  rfl

theorem unknownDependency?_withPreconditions (names : List String) (nodes : List (Node I)) :
    unknownDependency? names (nodes.map (Node.withPrecondition f)) =
      unknownDependency? names nodes := by
  induction nodes with
  | nil => rfl
  | cons n rest ih =>
    rw [List.map_cons]
    unfold unknownDependency?
    rw [ih]
    rfl

theorem placed_withPreconditions (g : Digraph) (nodes : List (Node I)) :
    (nodes.map (Node.withPrecondition f)).mapIdx (fun i n => place g i n) =
      (nodes.mapIdx fun i n => place g i n).map fun n =>
        { n with node := n.node.withPrecondition f } := by
  refine List.ext_getElem? fun i => ?_
  rw [List.getElem?_mapIdx, List.getElem?_map, List.getElem?_map, List.getElem?_mapIdx,
    Option.map_map, Option.map_map]
  rfl

/-- A declaration is accepted or refused whatever its preconditions are. -/
theorem build_withPreconditions (w : Workflow I) (hw : p.build = .ok w) :
    (p.withPreconditions f).build = .ok (w.withPreconditions f) := by
  unfold build at hw ⊢
  rw [names_withPreconditions, graph_withPreconditions]
  have hunknown : unknownDependency? (p.nodes.map (·.name)) (p.withPreconditions f).nodes =
      unknownDependency? (p.nodes.map (·.name)) p.nodes :=
    unknownDependency?_withPreconditions f _ _
  dsimp only at hw ⊢
  rw [hunknown]
  split at hw
  · cases hw
  · cases hw
  · cases htopological : p.graph.topological with
    | error x =>
      rw [htopological] at hw
      cases hw
    | ok topological =>
      rw [htopological] at hw
      cases hw
      unfold Workflow.withPreconditions withPreconditions
      dsimp only
      rw [placed_withPreconditions]

end WorkflowPlan

namespace Walk
variable {I : Interface} {σ : Type} (w w' : Walk I)

section
variable (hfinish : ∀ (d : Ongoing I) i o, w'.finish d i o = w.finish d i o)
include hfinish

theorem note_congr (d : Ongoing I) (i : Nat) (p : Task.Progress I Error NodeOutcome) :
    w'.note d i p = w.note d i p := by
  unfold note
  cases p.value? with
  | some o => exact hfinish _ i o
  | none => rfl

theorem resumeAll_congr (env : Environment I σ) (now : Nat)
    (es : List (Nat × Task.Progress I Error NodeOutcome)) (d : Ongoing I) (s : σ) :
    w'.resumeAll env now es d s = w.resumeAll env now es d s := by
  induction es generalizing d s with
  | nil => rfl
  | cons e rest ih =>
    unfold resumeAll
    dsimp only
    rw [w.note_congr w' hfinish]
    exact ih _ _

/-- Two walks that have room for the same nodes start the same ones. -/
theorem startAll_congr (hroom : ∀ d : Ongoing I, w'.hasRoom d = w.hasRoom d)
    (visit : Nat → Task I Error NodeOutcome) (env : Environment I σ) (now fuel : Nat)
    (d : Ongoing I) (s : σ) :
    w'.startAll visit env now fuel d s = w.startAll visit env now fuel d s := by
  induction fuel generalizing d s with
  | zero => rfl
  | succ fuel ih =>
    unfold startAll
    rw [hroom]
    cases d.waiting with
    | nil => rfl
    | cons i rest =>
      dsimp only
      rw [w.note_congr w' hfinish, ih]

/-- Walks that release the same nodes settle alike. -/
theorem settle_congr (hroom : ∀ d : Ongoing I, w'.hasRoom d = w.hasRoom d)
    (hlength : w'.workflow.nodes.length = w.workflow.nodes.length)
    (visit : Nat → Task I Error NodeOutcome) (env : Environment I σ) (now : Nat) (d : Ongoing I)
    (s : σ) : w'.settle visit env now d s = w.settle visit env now d s := by
  unfold settle
  rw [w.resumeAll_congr w' hfinish]
  dsimp only
  rw [w.startAll_congr w' hfinish hroom, hlength]

end
end Walk

namespace Workflow
variable {I : Interface} {σ τ : Type} (f : Preconditions I) (w : Workflow I)

theorem nodeAt?_withPreconditions (i : Nat) :
    (w.withPreconditions f).nodeAt? i =
      (w.nodeAt? i).map fun n => { n with node := n.node.withPrecondition f } := by
  unfold nodeAt? withPreconditions
  exact List.getElem?_map

theorem neighbors_withPreconditions (i : Nat) (neighbors : WorkflowNode I → List Nat)
    (h : ∀ n : WorkflowNode I, neighbors { n with node := n.node.withPrecondition f } =
      neighbors n) :
    (((w.withPreconditions f).nodeAt? i).map neighbors).getD [] =
      ((w.nodeAt? i).map neighbors).getD [] := by
  rw [nodeAt?_withPreconditions, Option.map_map]
  cases w.nodeAt? i with
  | none => rfl
  | some n => exact h n

theorem nameAt_withPreconditions (i : Nat) :
    (w.withPreconditions f).nameAt i = w.nameAt i := by
  unfold nameAt
  rw [nodeAt?_withPreconditions, Option.map_map]
  rfl

theorem finish_withPreconditions (mode : PassMode) (d : Drive τ) (i : Nat) (o : NodeOutcome) :
    ((w.withPreconditions f).walk mode).finish d i o = (w.walk mode).finish d i o := by
  have hpredecessors : ((w.withPreconditions f).walk mode).predecessors =
      (w.walk mode).predecessors :=
    funext fun i => w.neighbors_withPreconditions f i (·.predecessors) fun _ => rfl
  have hsuccessors : ((w.withPreconditions f).walk mode).successors = (w.walk mode).successors :=
    funext fun i => w.neighbors_withPreconditions f i (·.successors) fun _ => rfl
  unfold Walk.finish Walk.downstream Walk.isEligible
  rw [hpredecessors, hsuccessors]
  rfl

theorem begin_withPreconditions (mode : PassMode) :
    (((w.withPreconditions f).walk mode).begin : Drive τ) = (w.walk mode).begin := by
  have hpredecessors : ((w.withPreconditions f).walk mode).predecessors =
      (w.walk mode).predecessors :=
    funext fun i => w.neighbors_withPreconditions f i (·.predecessors) fun _ => rfl
  have hsuccessors : ((w.withPreconditions f).walk mode).successors = (w.walk mode).successors :=
    funext fun i => w.neighbors_withPreconditions f i (·.successors) fun _ => rfl
  unfold Walk.begin Walk.isEligible
  rw [hpredecessors, hsuccessors]
  rfl

/-- A cleanup visit does not look at the reconcile precondition. -/
theorem visit_withPreconditions (primary : ManagedObject) (ctx : Context) :
    ((w.withPreconditions f).walk .cleanup).visit primary ctx =
      (w.walk .cleanup).visit primary ctx := by
  funext i
  have hnode : ((w.withPreconditions f).walk .cleanup).workflow.nodeAt? i =
      ((w.walk .cleanup).workflow.nodeAt? i).map fun n =>
        { n with node := n.node.withPrecondition f } := w.nodeAt?_withPreconditions f i
  unfold Walk.visit
  rw [hnode]
  cases (w.walk .cleanup).workflow.nodeAt? i <;> rfl

theorem settle_withPreconditions (primary : ManagedObject) (ctx : Context)
    (env : Environment I σ) (now : Nat) (d : Walk.Ongoing I) (s : σ) :
    Pass.walked (w.withPreconditions f) env primary ctx now d s .cleanup =
      Pass.walked w env primary ctx now d s .cleanup := by
  unfold Pass.walked
  rw [visit_withPreconditions]
  refine (w.walk .cleanup).settle_congr _ (w.finish_withPreconditions f .cleanup) (fun _ => rfl) ?_
    _ env now d s
  exact List.length_map _

theorem recordAll_withPreconditions (r : PassResult) (completed : List (Nat × NodeOutcome)) :
    (w.withPreconditions f).recordAll r completed = w.recordAll r completed := by
  unfold recordAll
  have hname : (w.withPreconditions f).nameAt = w.nameAt :=
    funext (w.nameAt_withPreconditions f)
  rw [hname]

theorem mainResult_withPreconditions (completed : List (Nat × NodeOutcome)) :
    (w.withPreconditions f).mainResult .cleanup completed = w.mainResult .cleanup completed := by
  have hblank : (w.withPreconditions f).blankResult .cleanup = w.blankResult .cleanup := by
    unfold blankResult topologicalOrder names
    have hname : (w.withPreconditions f).nameAt = w.nameAt :=
      funext (w.nameAt_withPreconditions f)
    rw [hname]
    rfl
  unfold mainResult
  dsimp only
  rw [recordAll_withPreconditions, hblank]

/-- Whatever the preconditions are, a cleanup pass comes to the same. -/
theorem finish_walking_withPreconditions (primary : ManagedObject) (ctx : Context)
    (env : Environment I σ) (fuel : Nat) (d : Walk.Ongoing I) (now : Nat) (s : σ) :
    ((w.withPreconditions f).walking .cleanup primary ctx d).finish env fuel now s =
      (w.walking .cleanup primary ctx d).finish env fuel now s := by
  induction fuel generalizing d now s with
  | zero => rfl
  | succ fuel ih =>
    have hwalked := w.settle_withPreconditions f primary ctx env now d s
    unfold Pass.finish
    cases hover : (Pass.walked w env primary ctx now d s .cleanup).1.isOver with
    | false =>
      rw [Pass.settle_walking_going w env primary ctx now d s .cleanup hover,
        Pass.settle_walking_going _ env primary ctx now d s .cleanup (by rw [hwalked]; exact hover),
        hwalked]
      dsimp only
      have hdues : ((w.withPreconditions f).walking .cleanup primary ctx
          (Pass.walked w env primary ctx now d s .cleanup).1).dues =
        (w.walking .cleanup primary ctx (Pass.walked w env primary ctx now d s .cleanup).1).dues :=
        rfl
      rw [hdues]
      split
      · exact ih _ _ _
      · rfl
    | true =>
      rw [Pass.settle_walking_last w env primary ctx now d s .cleanup hover (Or.inl rfl),
        Pass.settle_walking_last _ env primary ctx now d s .cleanup (by rw [hwalked]; exact hover)
          (Or.inl rfl), hwalked, mainResult_withPreconditions]

theorem finish_pass_withPreconditions (primary : ManagedObject) (ctx : Context)
    (env : Environment I σ) (fuel now : Nat) (s : σ) :
    ((w.withPreconditions f).pass .cleanup primary ctx).finish env fuel now s =
      (w.pass .cleanup primary ctx).finish env fuel now s := by
  change ((w.withPreconditions f).walking .cleanup primary ctx
    ((w.withPreconditions f).walk .cleanup).begin).finish env fuel now s = _
  rw [begin_withPreconditions]
  exact w.finish_walking_withPreconditions f primary ctx env fuel _ now s

end Workflow

namespace WorkflowPlan
variable {I : Interface} {σ : Type}

/-- Under every schedule, a cleanup pass over an accepted workflow takes it down in order; whatever
is answered and when, the pass comes to a result, under some such schedule; and with other
reconcile preconditions it comes to the same one in the same way. -/
theorem cleanup_takenDown (p : WorkflowPlan I) (w : Workflow I) (hw : p.build = .ok w)
    (env : Environment I σ) (primary : ManagedObject) (ctx : Context) (now : Nat) (s : σ) :
    (∀ stage journal removal s',
      w.Chronicle env .cleanup primary ctx s stage journal removal s' →
        w.TakenDown primary ctx stage journal ∧ removal = []) ∧
    (∃ fuel r, ((w.pass .cleanup primary ctx).finish env fuel now s).1 = some r) ∧
    (∀ fuel r now' s',
      (w.pass .cleanup primary ctx).finish env fuel now s = (some r, now', s') →
        ∃ journal removal,
          w.Chronicle env .cleanup primary ctx s (.over r) journal removal s') ∧
    ∀ f, (p.withPreconditions f).build = .ok (w.withPreconditions f) ∧
      ∀ fuel, ((w.withPreconditions f).pass .cleanup primary ctx).finish env fuel now s =
        (w.pass .cleanup primary ctx).finish env fuel now s := by
  obtain ⟨hformed, _⟩ := p.build_wellFormed w hw
  obtain ⟨hfinishes, htold⟩ := Pass.finish_told hformed env .cleanup primary ctx now s
  exact ⟨fun _ _ _ _ h => ⟨h.takenDown hformed, h.removal_cleanup⟩, hfinishes, htold,
    fun f => ⟨p.build_withPreconditions f w hw,
      fun fuel => w.finish_pass_withPreconditions f primary ctx env fuel now s⟩⟩

/-- All is taken down: the interface is deleted, the inactive settings are skipped. -/
theorem cleanup_takenDown_rollout :
    ∃ w, rollout.build = .ok w ∧ ∃ r journal,
      (w.pass .cleanup default { primary := default }).finish clock 9 0 () = (some r, 9, ()) ∧
      w.Chronicle clock .cleanup default { primary := default } () (.over r) journal [] () ∧
      r.allReady = true ∧ .noticed 0 (.asked .delete) ∈ journal ∧
      .noticed 1 (.asked .delete) ∉ journal := by
  have hbuild : rollout.build = .ok (rollout.ordered [2, 1, 3, 0]) := rfl
  obtain ⟨hdown, _, htold, _⟩ := rollout.cleanup_takenDown _ hbuild clock default
    { primary := default } 0 ()
  obtain ⟨r, hr, hready, hapi, hsettings⟩ : ∃ r, ((rollout.ordered [2, 1, 3, 0]).pass .cleanup
      default { primary := default }).finish clock 9 0 () = (some r, 9, ()) ∧
      r.allReady = true ∧ r.outcome? "api" = some (.succeeded { deleted := 1 }) ∧
      r.outcome? "settings" = some .skippedInactive := ⟨_, rfl, rfl, rfl, rfl⟩
  obtain ⟨journal, removal, hchronicle⟩ := htold 9 r 9 () hr
  obtain ⟨hjournal, rfl⟩ := hdown _ _ _ _ hchronicle
  refine ⟨_, hbuild, r, journal, hr, hchronicle, hready, ?_, ?_⟩
  · refine (hjournal.ready r rfl hready 0 (by decide)).mpr fun hskipped => ?_
    cases hapi.symm.trans hskipped
  · exact fun hasked => (hjournal.ready r rfl hready 1 (by decide)).mp hasked hsettings

end WorkflowPlan
end Reconciliation
