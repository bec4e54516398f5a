import Reconciliation.Proofs.Workflow.Course
import Reconciliation.Proofs.Workflow.Results

/-!
Passes on a clock. A pass is in its walk over all nodes, or it deletes what that walk left marked.
Each time at which something is due takes some of its work away, so it comes to its end, whatever
is answered. Over nodes that always give the same answers, it comes to the result that its nodes
are bound to have.
-/
namespace Reconciliation

open Relation

namespace Workflow
variable {I : Interface}

/-- A pass in its walk over all nodes. -/
def walking (w : Workflow I) (mode : PassMode) (primary : ManagedObject) (ctx : Context)
    (d : Walk.Ongoing I) : Pass I :=
  { mode, primary, ctx, walk := w.walk mode, drive := d }

/-- A reconcile pass that deletes what its first walk left marked. -/
def removing (w : Workflow I) (completed : List (Nat × NodeOutcome)) (primary : ManagedObject)
    (ctx : Context) (d : Walk.Ongoing I) : Pass I where
  mode := .reconcile
  primary := primary
  ctx := ctx
  walk := w.removal (w.marked completed)
  drive := d
  before := some (w.mainResult .reconcile completed)

/-- Without marks the first walk of a reconcile pass leaves the result. -/
theorem next_walking_unmarked (w : Workflow I) (primary : ManagedObject) (ctx : Context)
    (d : Walk.Ongoing I) (hmarked : w.marked d.completed = []) :
    (w.walking .reconcile primary ctx d).next = .over (w.mainResult .reconcile d.completed) := by
  unfold Pass.next Pass.workflow
  dsimp only [walking, walk]
  rw [hmarked]

theorem next_walking_marked (w : Workflow I) (primary : ManagedObject) (ctx : Context)
    (d : Walk.Ongoing I) (hmarked : w.marked d.completed ≠ []) :
    (w.walking .reconcile primary ctx d).next =
      .going (w.removing d.completed primary ctx (w.removal (w.marked d.completed)).begin) := by
  unfold Pass.next Pass.workflow removing
  dsimp only [walking, walk]
  cases heq : w.marked d.completed with
  | nil => exact absurd heq hmarked
  | cons i rest => rfl

end Workflow

namespace Walk
variable {I : Interface} {σ : Type}

/-- The work on a node in a walk. -/
def visit (w : Walk I) (primary : ManagedObject) (ctx : Context) (i : Nat) :
    Task I Error NodeOutcome :=
  match w.workflow.nodeAt? i with
  | some n => n.node.visit w.mode primary ctx
  | none => .done (.errored .shuttingDown)

/-- A visit returns the outcome that follows from the answers of the node. -/
theorem visit_returns (w : Walk I) (env : Environment I σ) (answers : String → NodeAnswers)
    (primary : ManagedObject) (ctx : Context)
    (hans : ∀ n ∈ w.workflow.nodes, n.node.Answers env primary ctx (answers n.node.name))
    (i : Nat) (hi : i < w.workflow.nodes.length) (o : NodeOutcome)
    (ho : (w.visit primary ctx i).Returns env o) :
    o = w.workflow.visitedAt answers w.mode i := by
  have hnode : w.workflow.nodeAt? i = some w.workflow.nodes[i] := List.getElem?_eq_getElem hi
  unfold visit at ho
  rw [hnode] at ho
  unfold Workflow.visitedAt Workflow.nameAt
  rw [hnode]
  exact Node.visit_returns env primary ctx _ _ (hans _ (List.getElem_mem hi)) _ o ho

end Walk

namespace Pass
variable {I : Interface} {σ : Type}

/-- The walks to come, and what remains of the current one. -/
def remaining (p : Pass I) :
    Nat × (Nat × Multiset (Task.Progress I Error NodeOutcome)) :=
  (if p.before.isNone then 1 else 0, p.walk.remaining p.drive)

/-- Some work of the pass is gone. -/
def Lower (env : Environment I σ) (q p : Pass I) : Prop :=
  Prod.Lex (· < ·) (Prod.Lex (· < ·) (CutExpand (Task.Progress.Later env)))
    q.remaining p.remaining

theorem lower_wellFounded (env : Environment I σ) :
    WellFounded (Lower env : Pass I → Pass I → Prop) :=
  InvImage.wf remaining (Nat.lt_wfRel.wf.prod_lex
    (Nat.lt_wfRel.wf.prod_lex (Task.Progress.later_wellFounded env).cutExpand))

theorem lower_of_drive (env : Environment I σ) (p : Pass I) (d' d : Walk.Ongoing I)
    (h : TransGen (p.walk.Lower env) d' d) :
    TransGen (Lower env) { p with drive := d' } { p with drive := d } := by
  refine h.lift (fun d => { p with drive := d }) fun a b hstep => ?_
  change Prod.Lex _ _ _ _
  exact Prod.Lex.right _ hstep

theorem finish_of_over (env : Environment I σ) (fuel : Nat) (p : Pass I) (now : Nat) (s : σ)
    (r : PassResult) (h : (p.settle env now s).1 = .over r) :
    (p.finish env (fuel + 1) now s).1 = some r := by
  unfold finish
  rcases hsettle : p.settle env now s with ⟨standing, s'⟩
  rw [hsettle] at h
  obtain rfl : standing = .over r := h
  rfl

/-- A pass that waits goes on at one of the times that it waits for. -/
theorem finish_of_going (env : Environment I σ) (p q : Pass I) (now : Nat) (s : σ)
    (h : (p.settle env now s).1 = .going q) (hdues : q.dues ≠ []) :
    ∃ due ∈ q.dues, ∀ fuel, (p.finish env (fuel + 1) now s).1 =
      (q.finish env fuel due (p.settle env now s).2).1 := by
  cases hmin : q.dues.min? with
  | none => exact absurd (List.min?_eq_none_iff.mp hmin) hdues
  | some due =>
    refine ⟨due, List.min?_mem hmin, fun fuel => ?_⟩
    rw [finish]
    rcases hsettle : p.settle env now s with ⟨standing, s'⟩
    rw [hsettle] at h
    obtain rfl : standing = .going q := h
    dsimp only
    rw [hmin]

/-- A pass whose walk goes on. -/
theorem settle_going (env : Environment I σ) (now : Nat) (p q : Pass I) (s s' : σ)
    (h : p.settleWalk env now s = (q, s')) (hgoing : q.drive.isOver = false) :
    p.settle env now s = (.going q, s') := by
  unfold settle
  rw [h]
  dsimp only
  rw [hgoing]
  rfl

/-- A pass whose walk leaves a result. -/
theorem settle_over (env : Environment I σ) (now : Nat) (p q : Pass I) (s s' : σ)
    (h : p.settleWalk env now s = (q, s')) (hover : q.drive.isOver = true) (r : PassResult)
    (hnext : q.next = .over r) : p.settle env now s = (.over r, s') := by
  unfold settle
  rw [h]
  dsimp only
  rw [hover, hnext]
  rfl

/-- A pass whose walk leaves nodes to delete goes on as the pass that deletes them. -/
theorem settle_next (env : Environment I σ) (now : Nat) (p q : Pass I) (s s' : σ)
    (h : p.settleWalk env now s = (q, s')) (hover : q.drive.isOver = true) (w : Workflow I)
    (completed : List (Nat × NodeOutcome)) (primary : ManagedObject) (ctx : Context)
    (d : Walk.Ongoing I) (hnext : q.next = .going (w.removing completed primary ctx d)) :
    p.settle env now s = (w.removing completed primary ctx d).settle env now s' := by
  have hlast : ((w.removing completed primary ctx d).settleWalk env now s').1.next =
      .over (w.removalResult (w.mainResult .reconcile completed)
        ((w.removing completed primary ctx d).settleWalk env now s').1.drive.completed) := rfl
  cases hfinal : ((w.removing completed primary ctx d).settleWalk env now s').1.drive.isOver with
  | false =>
    rw [settle_going env now (w.removing completed primary ctx d) _ s' _ rfl hfinal]
    unfold settle
    rw [h]
    dsimp only
    rw [hover, hnext]
    dsimp only
    rw [hfinal]
    rfl
  | true =>
    rw [settle_over env now (w.removing completed primary ctx d) _ s' _ rfl hfinal _ hlast]
    unfold settle
    rw [h]
    dsimp only
    rw [hover, hnext]
    dsimp only
    rw [hfinal, hlast]
    rfl

section Walks
variable (w : Workflow I) (env : Environment I σ) (primary : ManagedObject) (ctx : Context)
  (now : Nat) (d : Walk.Ongoing I) (s : σ)

/-- The walk over all nodes, settled at a time. -/
def walked (mode : PassMode) : Walk.Ongoing I × σ :=
  (w.walk mode).settle ((w.walk mode).visit primary ctx) env now d s

/-- The walk over the marked nodes, settled at a time. -/
def removed (completed : List (Nat × NodeOutcome)) : Walk.Ongoing I × σ :=
  (w.removal (w.marked completed)).settle ((w.removal (w.marked completed)).visit primary ctx) env
    now d s

theorem settle_walking_going (mode : PassMode)
    (hgoing : (walked w env primary ctx now d s mode).1.isOver = false) :
    (w.walking mode primary ctx d).settle env now s =
      (.going (w.walking mode primary ctx (walked w env primary ctx now d s mode).1),
        (walked w env primary ctx now d s mode).2) :=
  settle_going env now _ _ s _ rfl hgoing

/-- The walk over all nodes is the last one of a cleanup pass, and of one that marks nothing. -/
theorem settle_walking_last (mode : PassMode)
    (hover : (walked w env primary ctx now d s mode).1.isOver = true)
    (hlast : mode = .cleanup ∨ w.marked (walked w env primary ctx now d s mode).1.completed = []) :
    (w.walking mode primary ctx d).settle env now s =
      (.over (w.mainResult mode (walked w env primary ctx now d s mode).1.completed),
        (walked w env primary ctx now d s mode).2) := by
  refine settle_over env now _ (w.walking mode primary ctx _) s _ rfl hover _ ?_
  cases mode with
  | cleanup => rfl
  | reconcile =>
    rcases hlast with hlast | hlast
    · cases hlast
    · exact w.next_walking_unmarked primary ctx _ hlast

theorem settle_walking_marked
    (hover : (walked w env primary ctx now d s .reconcile).1.isOver = true)
    (hmarked : w.marked (walked w env primary ctx now d s .reconcile).1.completed ≠ []) :
    (w.walking .reconcile primary ctx d).settle env now s =
      (w.removing (walked w env primary ctx now d s .reconcile).1.completed primary ctx
        (w.removal (w.marked (walked w env primary ctx now d s .reconcile).1.completed)).begin).settle
          env now (walked w env primary ctx now d s .reconcile).2 :=
  settle_next env now _ (w.walking .reconcile primary ctx _) s _ rfl hover _ _ _ _ _
    (w.next_walking_marked primary ctx _ hmarked)

theorem settle_removing_going (completed : List (Nat × NodeOutcome))
    (hgoing : (removed w env primary ctx now d s completed).1.isOver = false) :
    (w.removing completed primary ctx d).settle env now s =
      (.going (w.removing completed primary ctx (removed w env primary ctx now d s completed).1),
        (removed w env primary ctx now d s completed).2) :=
  settle_going env now _ _ s _ rfl hgoing

theorem settle_removing_over (completed : List (Nat × NodeOutcome))
    (hover : (removed w env primary ctx now d s completed).1.isOver = true) :
    (w.removing completed primary ctx d).settle env now s =
      (.over (w.removalResult (w.mainResult .reconcile completed)
        (removed w env primary ctx now d s completed).1.completed),
        (removed w env primary ctx now d s completed).2) :=
  settle_over env now _ (w.removing completed primary ctx _) s _ rfl hover _ rfl

end Walks

/-- A pass in one of its walks, whatever the outcomes so far are. -/
inductive Underway (w : Workflow I) (primary : ManagedObject) (ctx : Context) :
    PassMode → Pass I → Prop
  | walking (mode : PassMode) (d : Walk.Ongoing I) (h : (w.walk mode).Lively d) :
      Underway w primary ctx mode (w.walking mode primary ctx d)
  | removing (completed : List (Nat × NodeOutcome)) (d : Walk.Ongoing I)
      (h : (w.removal (w.marked completed)).Lively d) :
      Underway w primary ctx .reconcile (w.removing completed primary ctx d)

/-- A pass that goes on waits for a time, and has less work if something was due. -/
structure Proceeds (w : Workflow I) (env : Environment I σ) (primary : ManagedObject)
    (ctx : Context) (mode : PassMode) (p : Pass I) (now : Nat) (q : Pass I) : Prop where
  underway : Underway w primary ctx mode q
  waits : q.dues ≠ []
  lower : (∃ due ∈ p.dues, due ≤ now) → TransGen (Lower env) q p

section Ends
variable {w : Workflow I} (hw : w.WellFormed) {env : Environment I σ} {primary : ManagedObject}
  {ctx : Context}
include hw

/-- The walk that deletes the marked nodes is over, or something of its work is gone. -/
theorem proceeds_removing (completed : List (Nat × NodeOutcome)) (d : Walk.Ongoing I)
    (h : (w.removal (w.marked completed)).Lively d) (now : Nat) (s : σ) (q : Pass I)
    (hq : ((w.removing completed primary ctx d).settle env now s).1 = .going q) :
    (∃ d', q = w.removing completed primary ctx d') ∧
      Proceeds w env primary ctx .reconcile (w.removing completed primary ctx d) now q := by
  obtain ⟨hlively, hlower, hwaits⟩ :=
    h.settle hw ((w.removal (w.marked completed)).visit primary ctx) env now d s
  cases hover : (removed w env primary ctx now d s completed).1.isOver with
  | true =>
    rw [settle_removing_over w env primary ctx now d s completed hover] at hq
    cases hq
  | false =>
    rw [settle_removing_going w env primary ctx now d s completed hover] at hq
    cases hq
    refine ⟨⟨_, rfl⟩, .removing completed _ hlively, hwaits hover, fun ⟨due, hdue, hle⟩ => ?_⟩
    obtain ⟨e, he, hmem⟩ := List.mem_flatMap.mp hdue
    exact lower_of_drive env (w.removing completed primary ctx d) _ d
      (hlower ⟨e, he, due, hmem, hle⟩)

/-- The pass stays in the walk over all nodes with less to do, or it leaves that walk behind. -/
theorem proceeds_walking (mode : PassMode) (d : Walk.Ongoing I) (h : (w.walk mode).Lively d)
    (now : Nat) (s : σ) (q : Pass I)
    (hq : ((w.walking mode primary ctx d).settle env now s).1 = .going q) :
    Proceeds w env primary ctx mode (w.walking mode primary ctx d) now q := by
  obtain ⟨hlively, hlower, hwaits⟩ :=
    h.settle hw ((w.walk mode).visit primary ctx) env now d s
  cases hover : (walked w env primary ctx now d s mode).1.isOver with
  | false =>
    rw [settle_walking_going w env primary ctx now d s mode hover] at hq
    cases hq
    refine ⟨.walking mode _ hlively, hwaits hover, fun ⟨due, hdue, hle⟩ => ?_⟩
    obtain ⟨e, he, hmem⟩ := List.mem_flatMap.mp hdue
    exact lower_of_drive env (w.walking mode primary ctx d) _ d (hlower ⟨e, he, due, hmem, hle⟩)
  | true =>
    by_cases hlast : mode = .cleanup ∨
        w.marked (walked w env primary ctx now d s mode).1.completed = []
    · rw [settle_walking_last w env primary ctx now d s mode hover hlast] at hq
      cases hq
    · rw [not_or] at hlast
      obtain rfl : mode = .reconcile := by
        cases mode with
        | reconcile => rfl
        | cleanup => exact absurd rfl hlast.1
      rw [settle_walking_marked w env primary ctx now d s hover hlast.2] at hq
      obtain ⟨⟨d', rfl⟩, hproceeds⟩ := proceeds_removing hw _ _ (Walk.lively_begin _ hw) now _ q hq
      -- the walk over all nodes is behind, whatever remains of the other one
      exact ⟨hproceeds.underway, hproceeds.waits, fun _ => .single (Prod.Lex.left _ _ Nat.one_pos)⟩

theorem Underway.proceeds {mode : PassMode} {p : Pass I} (h : Underway w primary ctx mode p)
    (now : Nat) (s : σ) (q : Pass I) (hq : (p.settle env now s).1 = .going q) :
    Proceeds w env primary ctx mode p now q := by
  cases h with
  | walking mode d h => exact proceeds_walking hw mode d h now s q hq
  | removing completed d h => exact (proceeds_removing hw completed d h now s q hq).2

/-- A pass whose next answer is due comes to its end. -/
theorem Underway.exists_finish_of_due {mode : PassMode} (p : Pass I)
    (h : Underway w primary ctx mode p) (now : Nat) (s : σ)
    (hdue : ∃ due ∈ p.dues, due ≤ now) : ∃ fuel r, (p.finish env fuel now s).1 = some r := by
  induction p using (lower_wellFounded env).transGen.induction generalizing now s with
  | _ p ih =>
    rcases hstanding : (p.settle env now s).1 with q | r
    · have hproceeds := h.proceeds hw now s q hstanding
      obtain ⟨due, hmem, hfinish⟩ := finish_of_going env p q now s hstanding hproceeds.waits
      obtain ⟨fuel, r, hr⟩ := ih q (hproceeds.lower hdue) hproceeds.underway due
        (p.settle env now s).2 ⟨due, hmem, Nat.le_refl due⟩
      refine ⟨fuel + 1, r, ?_⟩
      rw [hfinish fuel]
      exact hr
    · exact ⟨1, r, finish_of_over env 0 p now s r hstanding⟩

/-- Whatever is answered, a pass comes to its end. -/
theorem Underway.exists_finish {mode : PassMode} {p : Pass I}
    (h : Underway w primary ctx mode p) (now : Nat) (s : σ) :
    ∃ fuel r, (p.finish env fuel now s).1 = some r := by
  rcases hstanding : (p.settle env now s).1 with q | r
  · have hproceeds := h.proceeds hw now s q hstanding
    obtain ⟨due, hmem, hfinish⟩ := finish_of_going env p q now s hstanding hproceeds.waits
    obtain ⟨fuel, r, hr⟩ := hproceeds.underway.exists_finish_of_due hw q due
      (p.settle env now s).2 ⟨due, hmem, Nat.le_refl due⟩
    refine ⟨fuel + 1, r, ?_⟩
    rw [hfinish fuel]
    exact hr
  · exact ⟨1, r, finish_of_over env 0 p now s r hstanding⟩

end Ends

/-- A pass is in its walk over all nodes, or it deletes what that walk left marked. -/
inductive OnCourse (w : Workflow I) (env : Environment I σ) (answers : String → NodeAnswers)
    (primary : ManagedObject) (ctx : Context) : PassMode → Pass I → Prop
  | walking (mode : PassMode) (d : Walk.Ongoing I)
      (h : (w.walk mode).Sound env (w.visitedAt answers mode) d) :
      OnCourse w env answers primary ctx mode (w.walking mode primary ctx d)
  | removing (completed : List (Nat × NodeOutcome)) (d : Walk.Ongoing I)
      (hover : (w.walk .reconcile).Finished (w.visitedAt answers .reconcile) completed)
      (h : (w.removal (w.marked completed)).Sound env (w.visitedAt answers .cleanup) d) :
      OnCourse w env answers primary ctx .reconcile (w.removing completed primary ctx d)

/-- What a pass has come to at a time: its result, or less work to wait for. -/
def Follows (w : Workflow I) (env : Environment I σ) (answers : String → NodeAnswers)
    (primary : ManagedObject) (ctx : Context) (mode : PassMode) (p : Pass I) (now : Nat) :
    Standing (Pass I) PassResult → Prop
  | .over r => w.Settled mode answers r
  | .going q => OnCourse w env answers primary ctx mode q ∧ q.dues ≠ [] ∧
      ((∃ due ∈ p.dues, due ≤ now) → TransGen (Lower env) q p)

section Fixed
variable {w : Workflow I} (hw : w.WellFormed) {env : Environment I σ}
  {answers : String → NodeAnswers} {primary : ManagedObject} {ctx : Context}
  (hans : ∀ n ∈ w.nodes, n.node.Answers env primary ctx (answers n.node.name))

theorem OnCourse.underway {mode : PassMode} {p : Pass I}
    (h : OnCourse w env answers primary ctx mode p) : Underway w primary ctx mode p := by
  cases h with
  | walking mode d h => exact .walking mode d h.lively
  | removing completed d _ h => exact .removing completed d h.lively

include hw hans

/-- The walk that deletes marked nodes completes the result, or goes on with less work. -/
theorem settle_removing (completed : List (Nat × NodeOutcome)) (d : Walk.Ongoing I)
    (hover : (w.walk .reconcile).Finished (w.visitedAt answers .reconcile) completed)
    (h : (w.removal (w.marked completed)).Sound env (w.visitedAt answers .cleanup) d)
    (now : Nat) (s : σ) :
    Follows w env answers primary ctx .reconcile (w.removing completed primary ctx d) now
      ((w.removing completed primary ctx d).settle env now s).1 := by
  have hsound : (w.removal (w.marked completed)).Sound env (w.visitedAt answers .cleanup)
      (removed w env primary ctx now d s completed).1 :=
    h.settle hw _ ((w.removal (w.marked completed)).visit_returns env answers primary ctx hans)
      now d s
  cases hfinal : (removed w env primary ctx now d s completed).1.isOver with
  | true =>
    rw [settle_removing_over w env primary ctx now d s completed hfinal]
    exact hw.settled_removal answers completed _ hover (hsound.tidy.finished hfinal)
  | false =>
    obtain ⟨_, hproceeds⟩ := proceeds_removing hw completed d h.lively now s _
      (congrArg Prod.fst (settle_removing_going w env primary ctx now d s completed hfinal))
    rw [settle_removing_going w env primary ctx now d s completed hfinal]
    exact ⟨.removing completed _ hover hsound, hproceeds.waits, hproceeds.lower⟩

/-- A walk over all nodes that is over leaves a result, or nodes to delete. -/
theorem settle_walking (mode : PassMode) (d : Walk.Ongoing I)
    (h : (w.walk mode).Sound env (w.visitedAt answers mode) d) (now : Nat) (s : σ) :
    Follows w env answers primary ctx mode (w.walking mode primary ctx d) now
      ((w.walking mode primary ctx d).settle env now s).1 := by
  have hsound : (w.walk mode).Sound env (w.visitedAt answers mode)
      (walked w env primary ctx now d s mode).1 :=
    h.settle hw _ ((w.walk mode).visit_returns env answers primary ctx hans) now d s
  cases hfinal : (walked w env primary ctx now d s mode).1.isOver with
  | false =>
    have hproceeds := proceeds_walking hw mode d h.lively now s _
      (congrArg Prod.fst (settle_walking_going w env primary ctx now d s mode hfinal))
    rw [settle_walking_going w env primary ctx now d s mode hfinal]
    exact ⟨.walking mode _ hsound, hproceeds.waits, hproceeds.lower⟩
  | true =>
    have hover := hsound.tidy.finished hfinal
    cases mode with
    | cleanup =>
      rw [settle_walking_last w env primary ctx now d s .cleanup hfinal (Or.inl rfl)]
      exact hw.settled_cleanup answers _ hover
    | reconcile =>
      by_cases hmarked : w.marked (walked w env primary ctx now d s .reconcile).1.completed = []
      · rw [settle_walking_last w env primary ctx now d s .reconcile hfinal (Or.inr hmarked)]
        exact hw.settled_reconcile answers _ hover hmarked
      · have hnext := settle_walking_marked w env primary ctx now d s hfinal hmarked
        have hfollows := settle_removing hw hans _ _ hover
          ((w.removal (w.marked _)).sound_begin hw env _) now
          (walked w env primary ctx now d s .reconcile).2
        rw [← hnext] at hfollows
        rcases hstanding : ((w.walking .reconcile primary ctx d).settle env now s).1 with q | r
        · rw [hstanding] at hfollows
          have hproceeds := proceeds_walking hw .reconcile d h.lively now s q hstanding
          exact ⟨hfollows.1, hproceeds.waits, hproceeds.lower⟩
        · rw [hstanding] at hfollows
          exact hfollows

theorem OnCourse.settle {mode : PassMode} {p : Pass I}
    (h : OnCourse w env answers primary ctx mode p) (now : Nat) (s : σ) :
    Follows w env answers primary ctx mode p now (p.settle env now s).1 := by
  cases h with
  | walking mode d h => exact settle_walking hw hans mode d h now s
  | removing completed d hover h => exact settle_removing hw hans completed d hover h now s

/-- Whatever result a pass comes to is the one that it is bound to have. -/
theorem OnCourse.settled_of_finish {mode : PassMode} (fuel : Nat) (p : Pass I)
    (h : OnCourse w env answers primary ctx mode p) (now : Nat) (s : σ) (r : PassResult)
    (hr : (p.finish env fuel now s).1 = some r) : w.Settled mode answers r := by
  induction fuel generalizing p now s with
  | zero => cases hr
  | succ fuel ih =>
    have hfollows := h.settle hw hans now s
    rcases hstanding : (p.settle env now s).1 with q | r'
    · rw [hstanding] at hfollows
      obtain ⟨hcourse, hdues, _⟩ := hfollows
      obtain ⟨due, _, hfinish⟩ := finish_of_going env p q now s hstanding hdues
      rw [hfinish fuel] at hr
      exact ih q hcourse due _ hr
    · rw [hstanding] at hfollows
      rw [finish_of_over env fuel p now s r' hstanding] at hr
      obtain rfl := Option.some.inj hr
      exact hfollows

end Fixed
end Pass

end Reconciliation
