import Reconciliation.Proofs.Task.Prompt
import Reconciliation.Workflow.Pass

/-!
Walks whose visits are all answered at once. A node that starts has finished by the time the next
one does, so no visit is ever under way and the nodes come one after another. A visit follows its
conditions in turn. So a pass can be worked out node by node, from the runs of its visits.
-/
namespace Reconciliation

namespace Node
variable {I : Interface} {σ : Type} {answer : (c : I.Call) → σ → I.Reply c × σ} {s s' : σ}

theorem gate_run_open (evaluate : Action I (Except Error Bool)) (operations : Operations)
    (closed : NodeOutcome) (proceed : Task I Error NodeOutcome)
    (h : evaluate.run answer s = (.ok true, s')) :
    (gate (some evaluate) operations closed proceed).run answer s = proceed.run answer s' :=
  Task.run_bind _ _ ((Task.run_ofAction evaluate s).trans h)

theorem gate_run_closed (evaluate : Action I (Except Error Bool)) (operations : Operations)
    (closed : NodeOutcome) (proceed : Task I Error NodeOutcome)
    (h : evaluate.run answer s = (.ok false, s')) :
    (gate (some evaluate) operations closed proceed).run answer s = (closed, s') :=
  Task.run_bind _ _ ((Task.run_ofAction evaluate s).trans h)

end Node

namespace Walk
variable {I : Interface} {σ : Type}

theorem startAll_idle (w : Walk I) (visit : Nat → Task I Error NodeOutcome)
    (env : Environment I σ) (now fuel : Nat) (completed : List (Nat × NodeOutcome)) (s : σ) :
    w.startAll visit env now fuel ⟨[], [], completed⟩ s = (⟨[], [], completed⟩, s) := by
  cases fuel <;> rfl

/-- The first node that waits is finished before the next one starts. -/
theorem startAll_prompt (w : Walk I) (visit : Nat → Task I Error NodeOutcome)
    {env : Environment I σ} (henv : env.Prompt) (now fuel : Nat) (i : Nat) (rest : List Nat)
    (completed : List (Nat × NodeOutcome)) {o : NodeOutcome} {s s' : σ}
    (hrun : (visit i).run (env.answer now) s = (o, s')) :
    w.startAll visit env now (fuel + 1) ⟨i :: rest, [], completed⟩ s =
      w.startAll visit env now fuel (w.finish ⟨rest, [], completed⟩ i o) s' := by
  have hroom : w.hasRoom (⟨i :: rest, [], completed⟩ : Ongoing I) = true :=
    decide_eq_true w.workflow.positive
  rw [startAll]
  dsimp only
  rw [if_pos hroom, Task.advance_prompt henv, hrun]
  dsimp only [note, Task.Progress.value?]
  congr 1
  unfold finish Drive.start Drive.update
  simp

end Walk
end Reconciliation
