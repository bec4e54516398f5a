import Reconciliation.Proofs.Task.Achievement
import Reconciliation.Proofs.Workflow.Passage
import Reconciliation.Proofs.Workflow.Report

/-!
What a cleanup pass attains. The deletion of a node is to reach a goal that nothing undoes. Then
whatever times the answers take and however the visits interleave, the goals of all nodes that a
cleanup pass reports as succeeded hold together when it is over.
-/
namespace Reconciliation

/-- The goal of a node counts if the node has succeeded; in a cleanup walk no node is marked. -/
def NodeOutcome.attains {σ : Type} {moves : σ → σ → Prop} (goal : Goal moves) (o : NodeOutcome) :
    Goal moves where
  Holds := fun s => o.isDeleted = false ∧ (o.isSucceeded = true → goal.Holds s)
  lasts := fun s s' hmove h => ⟨h.1, fun ho => goal.lasts s s' hmove (h.2 ho)⟩

namespace Node
variable {I : Interface} {σ : Type} {moves : σ → σ → Prop} [IsPreorder σ moves]
  {env : Environment I σ}

/-- A gate reaches its goal if it does so without being open, and what it lets through does so. -/
theorem gate_achieves {goal : NodeOutcome → Goal moves}
    (check : Option (Action I (Except Error Bool))) {s : σ}
    (hcheck : ∀ evaluate, check = some evaluate →
      evaluate.Achieves env (fun _ => (Goal.anything : Goal moves)) s)
    (operations : Operations) (closed : NodeOutcome) (proceed : Task I Error NodeOutcome)
    (hfailed : ∀ reason s', (goal (.notReady operations reason)).Holds s')
    (hclosed : ∀ s', (goal closed).Holds s') (hproceed : proceed.Achieves env goal s) :
    (gate check operations closed proceed).Achieves env goal s := by
  cases check with
  | none => exact hproceed
  | some evaluate =>
    have hevaluate := hcheck evaluate rfl
    refine (Task.achieves_ofAction hevaluate).bind fun outcome s' hmove _ => ?_
    cases outcome with
    | error e => exact hfailed e.message s'
    | ok holds =>
      cases holds with
      | true => exact hproceed.later hmove
      | false => exact hclosed s'

/-- The conditions of the node undo nothing, and its deletion reaches the goal. -/
structure Clears (env : Environment I σ) (goal : Goal moves) (primary : ManagedObject)
    (ctx : Context) (n : Node I) (s : σ) : Prop where
  check : ∀ kind evaluate, n.check kind primary ctx = some evaluate →
    evaluate.Achieves env (fun _ => (Goal.anything : Goal moves)) s
  delete : (n.delete primary ctx).Achieves env (Goal.ifOk fun _ => goal) s

/-- The visit has succeeded only if the deletion has, so the goal of the node is reached then. -/
theorem Clears.cleanupVisit {goal : Goal moves} {primary : ManagedObject} {ctx : Context}
    {n : Node I} {s : σ} (h : n.Clears env goal primary ctx s) :
    (n.cleanupVisit primary ctx).Achieves env (NodeOutcome.attains goal) s := by
  refine gate_achieves _ (h.check _) {} _ _ (fun _ _ => ⟨rfl, nofun⟩) (fun _ => ⟨rfl, nofun⟩) ?_
  refine gate_achieves _ (h.check _) {} _ _ (fun _ _ => ⟨rfl, nofun⟩) (fun _ => ⟨rfl, nofun⟩) ?_
  refine h.delete.bind fun outcome s' _ hgoal => ?_
  cases outcome with
  | error e => exact ⟨rfl, nofun⟩
  | ok operations => exact ⟨rfl, fun _ => hgoal⟩

end Node

namespace Walk
variable {I : Interface} {σ : Type} {moves : σ → σ → Prop}

/-- Every visit under way is on its way to the goal of its node, every finished one has got
there. -/
structure Attaining (w : Walk I) (env : Environment I σ) (goals : String → Goal moves)
    (d : Ongoing I) (s : σ) : Prop where
  lively : w.Lively d
  running : ∀ e ∈ d.running,
    e.2.Achieves env (NodeOutcome.attains (goals (w.workflow.nameAt e.1))) s
  completed : ∀ e ∈ d.completed, (e.2.attains (goals (w.workflow.nameAt e.1))).Holds s

theorem attaining_begin (w : Walk I) (hw : w.workflow.WellFormed) (env : Environment I σ)
    (goals : String → Goal moves) (s : σ) : w.Attaining env goals w.begin s :=
  ⟨w.lively_begin hw, fun _ h => absurd h List.not_mem_nil, fun _ h => absurd h List.not_mem_nil⟩

/-- Noting the work of one visit leaves the goals of the others as they are. -/
theorem attaining_note {w : Walk I} {env : Environment I σ} {goals : String → Goal moves}
    {d : Ongoing I} {i : Nat} {q : Task.Progress I Error NodeOutcome} {s : σ}
    (hlively : w.Lively (w.note d i q))
    (hothers : ∀ e ∈ d.running, e.1 ≠ i →
      e.2.Achieves env (NodeOutcome.attains (goals (w.workflow.nameAt e.1))) s)
    (hcompleted : ∀ e ∈ d.completed, (e.2.attains (goals (w.workflow.nameAt e.1))).Holds s)
    (hq : q.Achieves env (NodeOutcome.attains (goals (w.workflow.nameAt i))) s) :
    w.Attaining env goals (w.note d i q) s := by
  have hupdated : ∀ e ∈ (d.update i q).running,
      e.2.Achieves env (NodeOutcome.attains (goals (w.workflow.nameAt e.1))) s := by
    intro e he
    rcases d.mem_running_update i q e he with rfl | ⟨hold, hne⟩
    · exact hq
    · exact hothers e hold hne
  refine ⟨hlively, fun e he => ?_, fun e he => ?_⟩
  · unfold note at he
    cases hvalue : q.value? with
    | none =>
      rw [hvalue] at he
      exact hupdated e he
    | some o =>
      rw [hvalue] at he
      exact hupdated e (List.mem_filter.mp he).1
  · unfold note at he
    cases hvalue : q.value? with
    | none =>
      rw [hvalue] at he
      exact hcompleted e he
    | some o =>
      rw [hvalue] at he
      rcases List.mem_append.mp he with hold | hnew
      · exact hcompleted e hold
      · rw [List.mem_singleton.mp hnew]
        exact hq.value hvalue

variable [IsPreorder σ moves]

theorem Attaining.later {w : Walk I} {env : Environment I σ} {goals : String → Goal moves}
    {d : Ongoing I} {s s' : σ} (h : w.Attaining env goals d s) (hmove : moves s s') :
    w.Attaining env goals d s' :=
  ⟨h.lively, fun e he => (h.running e he).later hmove,
    fun e he => (e.2.attains _).lasts s s' hmove (h.completed e he)⟩

/-- One step of the walk. What was attained before it still is, as the step moves the state on. -/
theorem Attaining.goes {w : Walk I} (hw : w.workflow.WellFormed) {env : Environment I σ}
    {goals : String → Goal moves} (visit : Nat → Task I Error NodeOutcome) (start : σ)
    (hvisit : ∀ i, (visit i).Achieves env (NodeOutcome.attains (goals (w.workflow.nameAt i))) start)
    (d : Ongoing I) (s : σ) (d' : Ongoing I) (s' : σ)
    (h : w.Attaining env goals d s ∧ moves start s)
    (hgoes : w.Goes visit env (d, s) (d', s')) :
    w.Attaining env goals d' s' ∧ moves start s' := by
  obtain ⟨hattaining, hs⟩ := h
  cases hgoes with
  | resume _ _ i p hp now =>
    obtain ⟨hresumed, hmove⟩ := (hattaining.running (i, p) hp).resume now
    have hlater := hattaining.later hmove
    exact ⟨attaining_note (hattaining.lively.resume hw env now s i p hp)
      (fun e he _ => hlater.running e he) hlater.completed hresumed, trans_of moves hs hmove⟩
  | start _ _ i rest hwait hroom now =>
    obtain ⟨hstarted, hmove⟩ := ((hvisit i).later hs).advance now
    have hlater := hattaining.later hmove
    have hlively := hattaining.lively.start hw i rest hwait _
      ((visit i).advance_waits env now s) env
    refine ⟨attaining_note hlively.1 (fun e he hne => ?_) hlater.completed hstarted,
      trans_of moves hs hmove⟩
    rcases List.mem_append.mp he with hold | hnew
    · exact hlater.running e hold
    · exact absurd (congrArg Prod.fst (List.mem_singleton.mp hnew)) hne

theorem Attaining.settle {w : Walk I} (hw : w.workflow.WellFormed) {env : Environment I σ}
    {goals : String → Goal moves} (visit : Nat → Task I Error NodeOutcome) (start : σ)
    (hvisit : ∀ i, (visit i).Achieves env (NodeOutcome.attains (goals (w.workflow.nameAt i))) start)
    (now : Nat) (d : Ongoing I) (s : σ) (h : w.Attaining env goals d s) (hs : moves start s) :
    w.Attaining env goals (w.settle visit env now d s).1 (w.settle visit env now d s).2 ∧
      moves start (w.settle visit env now d s).2 :=
  w.settle_keeps visit env (fun d s => w.Attaining env goals d s ∧ moves start s)
    (Attaining.goes hw visit start hvisit) now d h.lively.keys_nodup s ⟨h, hs⟩

end Walk

namespace Pass
variable {I : Interface} {σ : Type} {moves : σ → σ → Prop}

/-- What a pass may have come to, and the state then. It goes on at any times, and in between
others may move the state. -/
inductive Unfolds (env : Environment I σ) (moves : σ → σ → Prop) (p : Pass I) (s : σ) :
    Standing (Pass I) PassResult → σ → Prop
  | begin : Unfolds env moves p s (.going p) s
  | others (q : Pass I) (s' s'' : σ) (h : Unfolds env moves p s (.going q) s')
      (hmove : moves s' s'') : Unfolds env moves p s (.going q) s''
  | settle (q : Pass I) (s' : σ) (h : Unfolds env moves p s (.going q) s') (now : Nat) :
      Unfolds env moves p s (q.settle env now s').1 (q.settle env now s').2

/-- A cleanup pass whose visits are on their way to the goals of their nodes, or its result, whose
successes have got there. -/
inductive Attaining (w : Workflow I) (env : Environment I σ) (goals : String → Goal moves)
    (primary : ManagedObject) (ctx : Context) : Standing (Pass I) PassResult → σ → Prop
  | going (d : Walk.Ongoing I) (s : σ) (h : (w.walk .cleanup).Attaining env goals d s) :
      Attaining w env goals primary ctx (.going (w.walking .cleanup primary ctx d)) s
  | over (r : PassResult) (s : σ) (hleaves : w.Leaves .cleanup r)
      (hattained : ∀ e ∈ r.recorded, (e.2.attains (goals e.1)).Holds s) :
      Attaining w env goals primary ctx (.over r) s

section Cleanup
variable {w : Workflow I} (hw : w.WellFormed) {env : Environment I σ}
  {goals : String → Goal moves} {primary : ManagedObject} {ctx : Context} {start : σ}

theorem recorded_cleanup (w : Workflow I) (completed : List (Nat × NodeOutcome)) :
    (w.mainResult .cleanup completed).recorded =
      (completed.filter fun e => !e.2.isDeleted).map fun e => (w.nameAt e.1, e.2) :=
  w.recorded_recordAll (w.blankResult .cleanup) _

variable [IsPreorder σ moves]
  (hclears : ∀ n ∈ w.nodes, n.node.Clears env (goals n.node.name) primary ctx start)

include hclears in
theorem visit_achieves (i : Nat) :
    ((w.walk .cleanup).visit primary ctx i).Achieves env
      (NodeOutcome.attains (goals (w.nameAt i))) start := by
  have hwalk : (w.walk .cleanup).workflow.nodeAt? i = w.nodeAt? i := rfl
  unfold Walk.visit Workflow.nameAt
  rw [hwalk]
  cases hn : w.nodeAt? i with
  | some n => exact (hclears n (List.mem_of_getElem? hn)).cleanupVisit
  | none => exact ⟨rfl, nofun⟩

include hw hclears

/-- All that happens at one time of the pass. Nothing is deleted after the walk over all nodes, as
no node of it was marked. -/
theorem Attaining.settle {p : Pass I} {s : σ}
    (h : Attaining w env goals primary ctx (.going p) s) (hs : moves start s) (now : Nat) :
    Attaining w env goals primary ctx (p.settle env now s).1 (p.settle env now s).2 ∧
      moves start (p.settle env now s).2 := by
  cases h with
  | going d _ h =>
    obtain ⟨hattaining, hmoved⟩ := h.settle hw ((w.walk .cleanup).visit primary ctx) start
      (visit_achieves hclears) now d s hs
    cases hover : (walked w env primary ctx now d s .cleanup).1.isOver with
    | false =>
      rw [settle_walking_going w env primary ctx now d s .cleanup hover]
      exact ⟨.going _ _ hattaining, hmoved⟩
    | true =>
      rw [settle_walking_last w env primary ctx now d s .cleanup hover (Or.inl rfl)]
      obtain ⟨outcome, htidy⟩ := hattaining.lively.tidy
      refine ⟨.over _ _ (.cleaned outcome _ (htidy.finished hover) fun e he => ?_) ?_, hmoved⟩
      · exact (hattaining.completed e he).1
      · rw [recorded_cleanup]
        intro e he
        obtain ⟨e', he', rfl⟩ := List.mem_map.mp he
        exact hattaining.completed e' (List.mem_filter.mp he').1

/-- However far a cleanup pass has come, no work of others has taken it back. -/
theorem Unfolds.attaining {standing : Standing (Pass I) PassResult} {s : σ}
    (h : (w.pass .cleanup primary ctx).Unfolds env moves start standing s) :
    Attaining w env goals primary ctx standing s ∧ moves start s := by
  induction h with
  | begin => exact ⟨.going _ _ ((w.walk .cleanup).attaining_begin hw env goals start),
      refl_of moves start⟩
  | others q s' s'' _ hmove ih =>
    obtain ⟨hattaining, hmoved⟩ := ih
    cases hattaining with
    | going d _ h => exact ⟨.going d _ (h.later hmove), trans_of moves hmoved hmove⟩
  | settle q s' _ now ih => exact ih.1.settle hw hclears ih.2 now

end Cleanup
end Pass
end Reconciliation
