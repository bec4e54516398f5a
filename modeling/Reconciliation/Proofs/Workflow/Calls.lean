import Reconciliation.Proofs.Task.Calls
import Reconciliation.Proofs.Workflow.Invariant

/-!
The calls of a pass. They are those of the conditions, the deletes and, in reconcile mode, the
reconciles of its nodes, whatever happens to the state between two times at which it goes on.
-/
namespace Reconciliation

open Environment

namespace Walk
variable {I : Interface} {σ : Type}

/-- The visits under way go on in the same way when their calls are noted. -/
theorem resumeAll_noting (w : Walk I) (env : Environment I σ) (now : Nat)
    (es : List (Nat × Task.Progress I Error NodeOutcome)) (d : Ongoing I)
    (s : σ × List I.Call) :
    withoutNotes (w.resumeAll env.noting now es d s) = w.resumeAll env now es d s.1 := by
  induction es generalizing d s with
  | nil => rfl
  | cons e rest ih =>
    have hresume := e.2.resume_noting env now s
    unfold withoutNotes at hresume
    unfold resumeAll
    dsimp only
    rw [← hresume]
    exact ih _ _

/-- The same visits start when their calls are noted, and they start in the same way. -/
theorem startAll_noting (w : Walk I) (visit : Nat → Task I Error NodeOutcome)
    (env : Environment I σ) (now fuel : Nat) (d : Ongoing I) (s : σ × List I.Call) :
    withoutNotes (w.startAll visit env.noting now fuel d s) =
      w.startAll visit env now fuel d s.1 := by
  induction fuel generalizing d s with
  | zero => rfl
  | succ fuel ih =>
    unfold startAll
    cases d.waiting with
    | nil => rfl
    | cons i rest =>
      dsimp only
      cases w.hasRoom d with
      | false => rfl
      | true =>
        have hadvance := (visit i).advance_noting env now s
        unfold withoutNotes at hadvance
        rw [← hadvance]
        exact ih _ _

theorem settle_noting (w : Walk I) (visit : Nat → Task I Error NodeOutcome)
    (env : Environment I σ) (now : Nat) (d : Ongoing I) (s : σ × List I.Call) :
    withoutNotes (w.settle visit env.noting now d s) = w.settle visit env now d s.1 := by
  have hresumed := w.resumeAll_noting env now d.running d s
  unfold withoutNotes at hresumed
  unfold settle
  rw [← hresumed]
  exact w.startAll_noting visit env now _ _ _

end Walk

namespace Pass
variable {I : Interface} {σ : Type}

theorem settleWalk_noting (p : Pass I) (env : Environment I σ) (now : Nat)
    (s : σ × List I.Call) :
    withoutNotes (p.settleWalk env.noting now s) = p.settleWalk env now s.1 := by
  have hwalk := p.walk.settle_noting p.visit env now p.drive s
  unfold withoutNotes at hwalk
  unfold settleWalk
  rw [← hwalk]
  rfl

/-- Notes change nothing about a pass. -/
theorem settle_noting (p : Pass I) (env : Environment I σ) (now : Nat) (s : σ × List I.Call) :
    withoutNotes (p.settle env.noting now s) = p.settle env now s.1 := by
  have hwalk := p.settleWalk_noting env now s
  unfold withoutNotes at hwalk
  unfold settle
  rw [← hwalk]
  dsimp only
  split
  · rfl
  · split
    · rfl
    · rename_i q _
      have hremoval := q.settleWalk_noting env now (p.settleWalk env.noting now s).2
      unfold withoutNotes at hremoval
      rw [← hremoval]
      dsimp only
      split <;> rfl

/-- What a pass may have come to, and the calls that its nodes have made so far. Between two
times at which it goes on, the state may become any other. -/
inductive Course (env : Environment I σ) (p : Pass I) :
    Standing (Pass I) PassResult → List I.Call → Prop
  | begin : Course env p (.going p) []
  | settle (q : Pass I) (calls : List I.Call) (h : Course env p (.going q) calls) (now : Nat)
      (s : σ) : Course env p (q.settle env.noting now (s, calls)).1
        (q.settle env.noting now (s, calls)).2.2

end Pass

namespace Node
variable {I : Interface} {σ : Type}

/-- A call of one of the parts of the node that a pass of this mode may use. -/
inductive MayCall (env : Environment I σ) (mode : PassMode) (primary : ManagedObject)
    (ctx : Context) (n : Node I) (c : I.Call) : Prop
  | check (kind : ConditionKind) (evaluate : Action I (Except Error Bool))
      (hevaluate : n.check kind primary ctx = some evaluate) (h : evaluate.MayCall env c)
  | reconcile (hmode : mode = .reconcile) (h : (n.reconcile primary ctx).MayCall env c)
  | delete (h : (n.delete primary ctx).MayCall env c)

theorem keeps_noting (env : Environment I σ) (mode : PassMode) (primary : ManagedObject)
    (ctx : Context) (n : Node I) (allowed : I.Call → Prop)
    (h : ∀ c, n.MayCall env mode primary ctx c → allowed c) :
    n.Keeps env.noting (NotesOnly allowed) mode primary ctx where
  check := fun kind evaluate hevaluate =>
    evaluate.ensures_noting env allowed fun c hc => h c (.check kind evaluate hevaluate hc)
  reconcile := fun hmode =>
    (n.reconcile primary ctx).ensures_noting env allowed fun c hc => h c (.reconcile hmode hc)
  delete := (n.delete primary ctx).ensures_noting env allowed fun c hc => h c (.delete hc)

end Node

namespace Pass
variable {I : Interface} {σ : Type}

section Nodes
variable {w : Workflow I} (hw : w.WellFormed) {env : Environment I σ} {mode : PassMode}
  {primary : ManagedObject} {ctx : Context} {standing : Standing (Pass I) PassResult}
  {calls : List I.Call} (h : (w.pass mode primary ctx).Course env standing calls)
include hw h

/-- Any course of the pass, with what happens to the state between its times, has only such
calls. -/
theorem Course.comesTo :
    let allowed := fun c => ∃ n ∈ w.nodes, n.node.MayCall env mode primary ctx c
    (∀ c ∈ calls, allowed c) ∧
      ComesTo w env.noting (NotesOnly allowed) primary ctx mode standing := by
  intro allowed
  have hkeeps : ∀ n ∈ w.nodes, n.node.Keeps env.noting (NotesOnly allowed) mode primary ctx :=
    fun n hn => n.node.keeps_noting env mode primary ctx _ fun c hc => ⟨n, hn, hc⟩
  induction h with
  | begin => exact ⟨fun _ h => absurd h List.not_mem_nil, onWay_pass hw⟩
  | settle q calls _ now s ih =>
    obtain ⟨hcomes, hnotes⟩ := OnWay.settle hw hkeeps ih.2 now (s, calls) ih.1
    exact ⟨hnotes, hcomes⟩

/-- The result that a pass has come to is one that its walks leave. -/
theorem Course.leaves {r : PassResult} (hr : standing = .over r) : w.Leaves mode r := by
  have hcomes := (h.comesTo hw).2
  rw [hr] at hcomes
  exact hcomes

/-- A pass makes no calls but those of its nodes, and its result reports on its workflow. -/
theorem Course.calls_of_nodes :
    (∀ c ∈ calls, ∃ n ∈ w.nodes, n.node.MayCall env mode primary ctx c) ∧
      ∀ r, standing = .over r → w.Reports r :=
  ⟨(h.comesTo hw).1, fun _ hr => (h.leaves hw hr).reports hw⟩

end Nodes

end Pass
end Reconciliation
