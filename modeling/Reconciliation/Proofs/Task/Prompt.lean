import Reconciliation.Task.Clocked

/-!
Tasks whose calls are all answered at once. Nothing interrupts them, so on a clock they come to
their value in one go, and it is the value of the run that knows no clock. Such runs are worked
out from the parts of a task one after another.
-/
namespace Reconciliation

/-- No answer takes any time. -/
def Environment.Prompt {I : Interface} {σ : Type} (env : Environment I σ) : Prop :=
  ∀ now c s, env.issue now c s = (0, s)

namespace Action
variable {I : Interface} {α β ε σ : Type}

theorem advance_prompt {env : Environment I σ} (henv : env.Prompt) (now : Nat)
    (t : Action I α) (s : σ) :
    t.advance env now s =
      (.finished (t.run (env.answer now) s).1, (t.run (env.answer now) s).2) := by
  induction t generalizing s with
  | done a => rfl
  | call c k ih =>
    unfold advance
    rw [henv now c s]
    exact ih _ _

variable {answer : (c : I.Call) → σ → I.Reply c × σ} {s s' : σ}

theorem run_bind (t : Action I α) (f : α → Action I β) {a : α}
    (ht : t.run answer s = (a, s')) : (t.bind f).run answer s = (f a).run answer s' := by
  induction t generalizing s with
  | done b =>
    obtain ⟨rfl, rfl⟩ := Prod.mk.inj ht
    rfl
  | call c k ih => exact ih _ ht

theorem run_andThen (t : Action I (Except ε α)) (f : α → Action I (Except ε β)) {a : α}
    (ht : t.run answer s = (.ok a, s')) : (t.andThen f).run answer s = (f a).run answer s' :=
  run_bind t _ ht

/-- The members of a group are as prompt as their environment. -/
theorem each_prompt {env : Environment I σ} (henv : env.Prompt) (now : Nat)
    (ms : List (Action I α)) (s : σ) :
    Progress.each (fun m s => m.advance env now s) ms s =
      ((Task.runGroup (env.answer now) ms s).1.map .finished,
        (Task.runGroup (env.answer now) ms s).2) := by
  induction ms generalizing s with
  | nil => rfl
  | cons m rest ih =>
    unfold Progress.each
    rw [advance_prompt henv]
    dsimp only
    rw [ih]
    rfl

theorem mapM_value?_finished (as : List α) :
    (as.map (Progress.finished (I := I))).mapM Progress.value? = some as := by
  induction as with
  | nil => rfl
  | cons a rest ih =>
    rw [List.map_cons, List.mapM_cons, ih]
    rfl

end Action

namespace Task
variable {I : Interface} {α β ε σ : Type}

/-- On a clock a prompt environment lets work run to its value at once. -/
theorem advance_prompt {env : Environment I σ} (henv : env.Prompt) (now : Nat)
    (t : Task I ε α) (s : σ) :
    t.advance env now s =
      (.finished (t.run (env.answer now) s).1, (t.run (env.answer now) s).2) := by
  induction t generalizing s with
  | done a => rfl
  | call c k ih =>
    unfold advance
    rw [henv now c s]
    exact ih _ _
  | group ms k ih =>
    unfold advance
    rw [Action.each_prompt henv]
    dsimp only
    rw [Action.mapM_value?_finished]
    exact ih _ _

variable {answer : (c : I.Call) → σ → I.Reply c × σ} {s s' : σ}

theorem run_bind (t : Task I ε α) (f : α → Task I ε β) {a : α}
    (ht : t.run answer s = (a, s')) : (t.bind f).run answer s = (f a).run answer s' := by
  induction t generalizing s with
  | done b =>
    obtain ⟨rfl, rfl⟩ := Prod.mk.inj ht
    rfl
  | call c k ih => exact ih _ ht
  | group ms k ih => exact ih _ ht

theorem run_andThen (t : Task I ε (Except ε α)) (f : α → Task I ε (Except ε β)) {a : α}
    (ht : t.run answer s = (.ok a, s')) : (t.andThen f).run answer s = (f a).run answer s' :=
  run_bind t _ ht

theorem run_ofAction (t : Action I α) (s : σ) :
    (ofAction t : Task I ε α).run answer s = t.run answer s := by
  induction t generalizing s with
  | done a => rfl
  | call c k ih => exact ih _ _

end Task
end Reconciliation
