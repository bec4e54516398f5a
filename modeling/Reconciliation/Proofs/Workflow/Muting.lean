import Reconciliation.Proofs.Dependent.Failures
import Reconciliation.Proofs.Workflow.Telling

/-!
Passes without the notices of their nodes. A workflow whose nodes give notices has the same graph
as the muted one, and their passes go on side by side: at each time the same visits go on or start,
with the same outcomes, and what the pass with notices adds is the log.
-/
namespace Reconciliation

section
variable {I : Interface} {N : Type}

/-- The same workflow, whose nodes say nothing. -/
def Workflow.muted (w : Workflow (I.noticing N)) : Workflow I where
  name := w.name
  nodes := w.nodes.map fun n => ⟨n.node.muted, n.predecessors, n.successors⟩
  topological := w.topological
  maxConcurrency := w.maxConcurrency
  positive := w.positive

def Walk.muted (w : Walk (I.noticing N)) : Walk I where
  workflow := w.workflow.muted
  mode := w.mode
  scope := w.scope

end

namespace Node
variable {I : Interface} {N : Type} (n : Node (I.noticing N)) (primary : ManagedObject)
  (ctx : Context)

theorem muted_gate (check : Option (Action (I.noticing N) (Except Error Bool)))
    (operations : Operations) (closed : NodeOutcome)
    (proceed : Task (I.noticing N) Error NodeOutcome) :
    (gate check operations closed proceed).muted =
      gate (check.map Action.muted) operations closed proceed.muted := by
  cases check with
  | none => rfl
  | some evaluate =>
    refine (Task.muted_bind _ _).trans ?_
    rw [Task.muted_ofAction]
    refine congrArg (Task.ofAction evaluate.muted).bind (funext fun outcome => ?_)
    rcases outcome with e | _ | _ <;> rfl

theorem muted_visit (mode : PassMode) :
    (n.visit mode primary ctx).muted = n.muted.visit mode primary ctx := by
  cases mode with
  | reconcile =>
    refine (muted_gate _ _ _ _).trans (congrArg _ ?_)
    refine (muted_gate _ _ _ _).trans (congrArg _ ?_)
    refine (Task.muted_bind _ _).trans (congrArg _ (funext fun outcome => ?_))
    cases outcome with
    | error e => rfl
    | ok operations => exact muted_gate _ _ _ _
  | cleanup =>
    refine (muted_gate _ _ _ _).trans (congrArg _ ?_)
    refine (muted_gate _ _ _ _).trans (congrArg _ ?_)
    refine (Task.muted_bind _ _).trans (congrArg _ (funext fun outcome => ?_))
    cases outcome <;> rfl

end Node

namespace Workflow
variable {I : Interface} {N τ : Type} (w : Workflow (I.noticing N))

theorem nodeAt?_muted (i : Nat) : w.muted.nodeAt? i =
    (w.nodeAt? i).map fun n => ⟨n.node.muted, n.predecessors, n.successors⟩ :=
  List.getElem?_map

theorem predecessorsAt_muted : w.muted.predecessorsAt = w.predecessorsAt := by
  funext i
  unfold predecessorsAt
  rw [nodeAt?_muted, Option.map_map]
  rfl

theorem successorsAt_muted : w.muted.successorsAt = w.successorsAt := by
  funext i
  unfold successorsAt
  rw [nodeAt?_muted, Option.map_map]
  rfl

theorem nameAt_muted : w.muted.nameAt = w.nameAt := by
  funext i
  unfold nameAt
  rw [nodeAt?_muted, Option.map_map]
  rfl

theorem wellFormed_of_muted (h : w.muted.WellFormed) : w.WellFormed := by
  have hlength : w.muted.nodes.length = w.nodes.length := List.length_map _
  have hnames : w.muted.nodes.map (·.node.name) = w.nodes.map (·.node.name) := List.map_map
  refine ⟨hlength ▸ h.perm, ?_, ?_, ?_, ?_, hnames ▸ h.names_nodup⟩
  · exact w.predecessorsAt_muted ▸ h.earlier
  · exact w.predecessorsAt_muted ▸ w.successorsAt_muted ▸ h.mutual_iff
  · exact w.predecessorsAt_muted ▸ h.nodup_predecessors
  · exact w.successorsAt_muted ▸ h.nodup_successors

theorem marked_muted (completed : List (Nat × NodeOutcome)) :
    w.muted.marked completed = w.marked completed := by
  unfold marked
  have hmark : ∀ marked order, w.muted.markAlong completed marked order =
      w.markAlong completed marked order := by
    intro marked order
    induction order generalizing marked with
    | nil => rfl
    | cons i rest ih =>
      unfold markAlong
      rw [predecessorsAt_muted, ih, ih]
  exact hmark [] w.topological

theorem inactive_muted (completed : List (Nat × NodeOutcome)) (marked : List Nat) :
    w.muted.inactive completed marked = w.inactive completed marked := by
  unfold inactive
  have hinactive : ∀ inactive order, w.muted.inactiveAlong completed marked inactive order =
      w.inactiveAlong completed marked inactive order := by
    intro inactive order
    induction order generalizing inactive with
    | nil => rfl
    | cons i rest ih =>
      unfold inactiveAlong
      rw [predecessorsAt_muted, ih, ih]
  exact hinactive [] w.topological

theorem recordAll_muted (r : PassResult) (completed : List (Nat × NodeOutcome)) :
    w.muted.recordAll r completed = w.recordAll r completed := by
  unfold recordAll
  rw [nameAt_muted]

theorem mainResult_muted (mode : PassMode) (completed : List (Nat × NodeOutcome)) :
    w.muted.mainResult mode completed = w.mainResult mode completed := by
  have hblank : w.muted.blankResult mode = w.blankResult mode := by
    unfold blankResult topologicalOrder names
    rw [nameAt_muted]
    rfl
  unfold mainResult
  cases mode with
  | cleanup => rw [recordAll_muted, hblank]
  | reconcile =>
    dsimp only
    rw [recordAll_muted, recordAll_muted, hblank, marked_muted, inactive_muted]

theorem removalResult_muted (before : PassResult) (completed : List (Nat × NodeOutcome)) :
    w.muted.removalResult before completed = w.removalResult before completed :=
  w.recordAll_muted before _

end Workflow

namespace Walk
variable {I : Interface} {N σ τ : Type} (w : Walk (I.noticing N))

theorem predecessors_muted : w.muted.predecessors = w.predecessors :=
  w.workflow.predecessorsAt_muted

theorem successors_muted : w.muted.successors = w.successors := w.workflow.successorsAt_muted

theorem isEligible_muted : w.muted.isEligible = w.isEligible := by
  funext completed i
  unfold isEligible
  rw [predecessors_muted, successors_muted]
  rfl

theorem finish_muted (d : Drive τ) (i : Nat) (o : NodeOutcome) :
    w.muted.finish d i o = w.finish d i o := by
  unfold finish downstream
  rw [predecessors_muted, successors_muted, isEligible_muted]
  rfl

theorem begin_muted : (w.muted.begin : Drive τ) = w.begin := by
  unfold begin
  rw [isEligible_muted]
  rfl

theorem visit_muted (primary : ManagedObject) (ctx : Context) (i : Nat) :
    w.muted.visit primary ctx i = (w.visit primary ctx i).muted := by
  unfold visit
  have hnode := w.workflow.nodeAt?_muted i
  cases hn : w.workflow.nodeAt? i with
  | none =>
    rw [hn] at hnode
    unfold muted
    rw [hnode]
    rfl
  | some n =>
    rw [hn] at hnode
    unfold muted
    rw [hnode]
    exact (n.node.muted_visit primary ctx w.mode).symm

/-- A walk with notices, and the muted one at its side. -/
def Mutes (d' : Ongoing (I.noticing N)) (d : Ongoing I) : Prop :=
  ∃ pairs : Drive (Task.Progress (I.noticing N) Error NodeOutcome ×
      Task.Progress I Error NodeOutcome),
    (∀ e ∈ pairs.running, e.2.1.Mutes e.2.2) ∧ pairs.map Prod.fst = d' ∧ pairs.map Prod.snd = d

section
variable {w} {d' : Ongoing (I.noticing N)} {d : Ongoing I}

theorem mutes_begin : Mutes (w.begin : Ongoing (I.noticing N)) w.muted.begin :=
  ⟨w.begin, fun _ h => absurd h List.not_mem_nil, rfl, w.begin_muted.symm⟩

theorem Mutes.completed (h : Mutes d' d) : d'.completed = d.completed := by
  obtain ⟨pairs, _, rfl, rfl⟩ := h
  rfl

theorem Mutes.waiting (h : Mutes d' d) : d'.waiting = d.waiting := by
  obtain ⟨pairs, _, rfl, rfl⟩ := h
  rfl

theorem Mutes.hasRoom (h : Mutes d' d) : w.hasRoom d' = w.muted.hasRoom d := by
  obtain ⟨pairs, _, rfl, rfl⟩ := h
  rw [hasRoom_map]
  exact (w.muted.hasRoom_map Prod.snd pairs).symm

theorem Mutes.isOver (h : Mutes d' d) : d'.isOver = d.isOver := by
  obtain ⟨pairs, _, rfl, rfl⟩ := h
  rw [Drive.isOver_map, Drive.isOver_map]

theorem Mutes.start (h : Mutes d' d) (i : Nat) {p' : Task.Progress (I.noticing N) Error NodeOutcome}
    {p : Task.Progress I Error NodeOutcome} (hp : p'.Mutes p) :
    Mutes (d'.start i p') (d.start i p) := by
  obtain ⟨pairs, hpairs, rfl, rfl⟩ := h
  refine ⟨pairs.start i (p', p), fun e he => ?_, pairs.map_start _ i _, pairs.map_start _ i _⟩
  rcases List.mem_append.mp he with hold | hnew
  · exact hpairs e hold
  · rw [List.mem_singleton.mp hnew]
    exact hp

/-- The work of one visit is noted on both sides with the same outcome. -/
theorem Mutes.note (h : Mutes d' d) (i : Nat) {p' : Task.Progress (I.noticing N) Error NodeOutcome}
    {p : Task.Progress I Error NodeOutcome} (hp : p'.Mutes p) :
    Mutes (w.note d' i p') (w.muted.note d i p) := by
  obtain ⟨pairs, hpairs, rfl, rfl⟩ := h
  have hupdated : ∀ e ∈ (pairs.update i (p', p)).running, e.2.1.Mutes e.2.2 := by
    intro e he
    rcases pairs.mem_running_update i (p', p) e he with rfl | ⟨hold, _⟩
    · exact hp
    · exact hpairs e hold
  unfold Walk.note
  rw [hp.value?]
  cases p.value? with
  | none => exact ⟨pairs.update i (p', p), hupdated, pairs.map_update _ i _, pairs.map_update _ i _⟩
  | some o =>
    refine ⟨w.finish (pairs.update i (p', p)) i o, fun e he => ?_, ?_, ?_⟩
    · exact hupdated e (List.mem_filter.mp he).1
    · rw [map_finish, Drive.map_update]
    · dsimp only
      rw [map_finish, Drive.map_update]
      exact (w.finish_muted _ i o).symm

variable (w)

/-- The visits under way go on side by side, and the notices add only to the log. -/
theorem resumeAll_mutes (env : Environment I σ) (now : Nat)
    (es : List (Nat × Task.Progress (I.noticing N) Error NodeOutcome ×
      Task.Progress I Error NodeOutcome)) (hes : ∀ e ∈ es, e.2.1.Mutes e.2.2) (h : Mutes d' d)
    (s : σ) (log : List N) :
    Mutes (w.resumeAll (env.noticing N) now (es.map fun e => (e.1, e.2.1)) d' (s, log)).1
        (w.muted.resumeAll env now (es.map fun e => (e.1, e.2.2)) d s).1 ∧
      (w.resumeAll (env.noticing N) now (es.map fun e => (e.1, e.2.1)) d' (s, log)).2.1 =
        (w.muted.resumeAll env now (es.map fun e => (e.1, e.2.2)) d s).2 := by
  induction es generalizing d' d s log with
  | nil => exact ⟨h, rfl⟩
  | cons e rest ih =>
    obtain ⟨hmutes, hstate⟩ := (hes e List.mem_cons_self).resume env now s log
    rw [List.map_cons, List.map_cons]
    unfold resumeAll
    dsimp only
    rcases hresumed : e.2.1.resume (env.noticing N) now (s, log) with ⟨q, s', log'⟩
    rw [hresumed] at hmutes hstate
    obtain rfl : s' = _ := hstate
    exact ih (fun e he => hes e (List.mem_cons_of_mem _ he)) (h.note e.1 hmutes) _ log'

/-- The same nodes start on both sides, as the same outcomes are recorded and there is the same
room. -/
theorem startAll_mutes (primary : ManagedObject) (ctx : Context) (env : Environment I σ)
    (now fuel : Nat) (h : Mutes d' d) (s : σ) (log : List N) :
    Mutes (w.startAll (w.visit primary ctx) (env.noticing N) now fuel d' (s, log)).1
        (w.muted.startAll (w.muted.visit primary ctx) env now fuel d s).1 ∧
      (w.startAll (w.visit primary ctx) (env.noticing N) now fuel d' (s, log)).2.1 =
        (w.muted.startAll (w.muted.visit primary ctx) env now fuel d s).2 := by
  induction fuel generalizing d' d s log with
  | zero => exact ⟨h, rfl⟩
  | succ fuel ih =>
    unfold startAll
    rw [h.waiting, h.hasRoom]
    cases d.waiting with
    | nil => exact ⟨h, rfl⟩
    | cons i rest =>
      dsimp only
      cases w.muted.hasRoom d with
      | false => exact ⟨h, rfl⟩
      | true =>
        obtain ⟨hmutes, hstate⟩ := (w.visit primary ctx i).advance_muted env now s log
        rw [← visit_muted] at hmutes hstate
        rcases hstarted : (w.visit primary ctx i).advance (env.noticing N) now (s, log)
          with ⟨q, s', log'⟩
        rw [hstarted] at hmutes hstate
        obtain rfl : s' = _ := hstate
        exact ih ((h.start i hmutes).note i hmutes) _ log'

/-- All that is due at one time goes on side by side. -/
theorem settle_mutes (primary : ManagedObject) (ctx : Context) (env : Environment I σ) (now : Nat)
    (h : Mutes d' d) (s : σ) (log : List N) :
    Mutes (w.settle (w.visit primary ctx) (env.noticing N) now d' (s, log)).1
        (w.muted.settle (w.muted.visit primary ctx) env now d s).1 ∧
      (w.settle (w.visit primary ctx) (env.noticing N) now d' (s, log)).2.1 =
        (w.muted.settle (w.muted.visit primary ctx) env now d s).2 := by
  have hlength : w.muted.workflow.nodes.length = w.workflow.nodes.length := List.length_map _
  obtain ⟨pairs, hpairs, hfst, hsnd⟩ := id h
  obtain ⟨hresumed, hstate⟩ := w.resumeAll_mutes env now pairs.running hpairs h s log
  have hrunning' : pairs.running.map (fun e => (e.1, e.2.1)) = d'.running := by rw [← hfst]; rfl
  have hrunning : pairs.running.map (fun e => (e.1, e.2.2)) = d.running := by rw [← hsnd]; rfl
  rw [hrunning', hrunning] at hresumed hstate
  unfold settle
  dsimp only
  rw [hlength]
  rcases hall : w.resumeAll (env.noticing N) now d'.running d' (s, log) with ⟨q, s', log'⟩
  rw [hall] at hresumed hstate
  obtain rfl : s' = _ := hstate
  exact w.startAll_mutes primary ctx env now _ hresumed _ log'

end
end Walk

namespace Pass
variable {I : Interface} {N σ : Type}

/-- A pass with notices, and the muted one at its side. -/
inductive Mutes : Pass (I.noticing N) → Pass I → Prop
  | intro (mode : PassMode) (primary : ManagedObject) (ctx : Context) (walk : Walk (I.noticing N))
      (d' : Walk.Ongoing (I.noticing N)) (d : Walk.Ongoing I) (before : Option PassResult)
      (h : Walk.Mutes d' d) :
      Mutes ⟨mode, primary, ctx, walk, d', before⟩ ⟨mode, primary, ctx, walk.muted, d, before⟩

/-- What a pass with notices and the muted one have come to. -/
inductive Agree : Standing (Pass (I.noticing N)) PassResult → Standing (Pass I) PassResult → Prop
  | going (p' : Pass (I.noticing N)) (p : Pass I) (h : p'.Mutes p) : Agree (.going p') (.going p)
  | ended (r : PassResult) : Agree (.over r) (.over r)

theorem mutes_pass (w : Workflow (I.noticing N)) (mode : PassMode) (primary : ManagedObject)
    (ctx : Context) : (w.pass mode primary ctx).Mutes (w.muted.pass mode primary ctx) :=
  .intro mode primary ctx (w.walk mode) _ _ none Walk.mutes_begin

section
variable {p' : Pass (I.noticing N)} {p : Pass I} (h : p'.Mutes p)
include h

theorem Mutes.isOver : p'.drive.isOver = p.drive.isOver := by
  cases h with
  | intro mode primary ctx walk d' d before h => exact h.isOver

theorem Mutes.settleWalk (env : Environment I σ) (now : Nat) (s : σ) (log : List N) :
    (p'.settleWalk (env.noticing N) now (s, log)).1.Mutes (p.settleWalk env now s).1 ∧
      (p'.settleWalk (env.noticing N) now (s, log)).2.1 = (p.settleWalk env now s).2 := by
  cases h with
  | intro mode primary ctx walk d' d before h =>
    obtain ⟨hmutes, hstate⟩ := walk.settle_mutes primary ctx env now h s log
    exact ⟨.intro mode primary ctx walk _ _ before hmutes, hstate⟩

/-- Both passes wait for the same time, or both are over with the same result. -/
theorem Mutes.next : Agree p'.next p.next := by
  cases h with
  | intro mode primary ctx walk d' d before h =>
    unfold Pass.next Pass.workflow
    dsimp only
    rw [h.completed]
    have hworkflow : walk.muted.workflow = walk.workflow.muted := rfl
    rw [hworkflow]
    cases before with
    | some before =>
      dsimp only
      rw [Workflow.removalResult_muted]
      exact .ended _
    | none =>
      dsimp only
      rw [Workflow.mainResult_muted, Workflow.marked_muted]
      cases mode with
      | cleanup => exact .ended _
      | reconcile =>
        cases walk.workflow.marked d.completed with
        | nil => exact .ended _
        | cons i rest => exact .going _ _ (.intro _ _ _ _ _ _ _ Walk.mutes_begin)

/-- At each time of a pass the same visits go on and start, in both of its walks. -/
theorem Mutes.settle (env : Environment I σ) (now : Nat) (s : σ) (log : List N) :
    Agree (p'.settle (env.noticing N) now (s, log)).1 (p.settle env now s).1 ∧
      (p'.settle (env.noticing N) now (s, log)).2.1 = (p.settle env now s).2 := by
  obtain ⟨hwalked, hstate⟩ := h.settleWalk env now s log
  unfold Pass.settle
  rcases hq' : p'.settleWalk (env.noticing N) now (s, log) with ⟨q', s₁, log₁⟩
  rcases hq : p.settleWalk env now s with ⟨q, s₂⟩
  rw [hq', hq] at hwalked hstate
  obtain rfl : s₁ = s₂ := hstate
  dsimp only
  rw [hwalked.isOver]
  cases q.drive.isOver with
  | false => exact ⟨.going q' q hwalked, rfl⟩
  | true =>
    simp only [Bool.not_true, Bool.false_eq_true, if_false]
    have hnext := hwalked.next
    generalize q'.next = x' at hnext
    generalize q.next = x at hnext
    cases hnext with
    | ended r => exact ⟨.ended r, rfl⟩
    | going t' t ht =>
      obtain ⟨hlast, hfinal⟩ := ht.settleWalk env now s₁ log₁
      dsimp only
      rcases hu' : t'.settleWalk (env.noticing N) now (s₁, log₁) with ⟨u', s₃, log₃⟩
      rcases hu : t.settleWalk env now s₁ with ⟨u, s₄⟩
      rw [hu', hu] at hlast hfinal
      obtain rfl : s₃ = s₄ := hfinal
      dsimp only
      rw [hlast.isOver]
      cases u.drive.isOver with
      | false => exact ⟨.going u' u hlast, rfl⟩
      | true => exact ⟨hlast.next, rfl⟩

end
end Pass
end Reconciliation
