import Reconciliation.Task.Clocked
import Mathlib.Data.List.Forall2

/-!
The values that work can return. An environment may answer a call at any time and in any state,
so a task has a set of possible values; members of a group are answered in any interleaving.
However far a task has come on a clock, it can only return one of these values.
-/
namespace Reconciliation

namespace Action
variable {I : Interface} {α σ : Type}

/-- The action returns the value for some answers of the environment. -/
inductive Returns (env : Environment I σ) : Action I α → α → Prop
  | done (a : α) : Returns env (.done a) a
  | call (c : I.Call) (k : I.Reply c → Action I α) (now : Nat) (s : σ) (a : α)
      (h : Returns env (k (env.answer now c s).1) a) : Returns env (.call c k) a

namespace Progress

def Returns (env : Environment I σ) : Progress I α → α → Prop
  | finished a, b => a = b
  | awaiting _ c k, b => (Action.call c k).Returns env b

end Progress

/-- Beginning an action rules values out and never adds any. -/
theorem advance_returns (env : Environment I σ) (now : Nat) (t : Action I α) (s : σ) (a : α)
    (h : (t.advance env now s).1.Returns env a) : t.Returns env a := by
  induction t generalizing s with
  | done b =>
    obtain rfl : b = a := h
    exact .done b
  | call c k ih =>
    unfold advance at h
    split at h
    · rename_i s' _
      exact .call c k now s' a (ih _ _ h)
    · exact h

theorem Progress.resume_returns (env : Environment I σ) (now : Nat) (p : Progress I α) (s : σ)
    (a : α) (h : (p.resume env now s).1.Returns env a) : p.Returns env a := by
  cases p with
  | finished b => exact h
  | awaiting due c k =>
    simp only [Progress.resume] at h
    split at h
    · exact .call c k now s a (advance_returns env now _ _ a h)
    · exact h

/-- What the members of a group return after a step they could have returned before. -/
theorem Progress.each_returns {π : Type} (env : Environment I σ)
    (step : π → σ → Progress I α × σ) (before : π → α → Prop)
    (hstep : ∀ p s a, (step p s).1.Returns env a → before p a) (ps : List π) (s : σ)
    (as : List α) (h : List.Forall₂ (Progress.Returns env) (Progress.each step ps s).1 as) :
    List.Forall₂ before ps as := by
  induction ps generalizing s as with
  | nil =>
    cases h
    exact .nil
  | cons p rest ih =>
    cases h with
    | cons hfirst hrest => exact .cons (hstep p s _ hfirst) (ih _ _ hrest)

/-- A group that has its values has only members that are over. -/
theorem Progress.mapM_value?_eq_some (ps : List (Progress I α)) (as : List α)
    (h : ps.mapM Progress.value? = some as) : ps = as.map Progress.finished := by
  induction ps generalizing as with
  | nil =>
    cases h
    rfl
  | cons p rest ih =>
    rw [List.mapM_cons] at h
    cases p with
    | awaiting due c k => cases h
    | finished a =>
      cases hrest : rest.mapM Progress.value? with
      | none =>
        rw [hrest] at h
        cases h
      | some as' =>
        rw [hrest] at h
        cases h
        rw [ih as' hrest, List.map_cons]

theorem Progress.forall₂_finished (env : Environment I σ) (as : List α) :
    List.Forall₂ (Progress.Returns env) (as.map Progress.finished) as := by
  induction as with
  | nil => exact .nil
  | cons a rest ih => exact .cons rfl ih

end Action

namespace Task
variable {I : Interface} {ε α β σ : Type}

/-- The task returns the value for some answers of the environment. -/
inductive Returns (env : Environment I σ) : Task I ε α → α → Prop
  | done (a : α) : Returns env (.done a) a
  | call (c : I.Call) (k : I.Reply c → Task I ε α) (now : Nat) (s : σ) (a : α)
      (h : Returns env (k (env.answer now c s).1) a) : Returns env (.call c k) a
  | group (ms : List (Action I (Except ε Unit))) (k : List (Except ε Unit) → Task I ε α)
      (rs : List (Except ε Unit)) (a : α) (hms : List.Forall₂ (Action.Returns env) ms rs)
      (h : Returns env (k rs) a) : Returns env (.group ms k) a

namespace Progress

def Returns (env : Environment I σ) : Progress I ε α → α → Prop
  | finished a, b => a = b
  | awaiting _ c k, b => (Task.call c k).Returns env b
  | joining ps k, b =>
    ∃ rs, List.Forall₂ (Action.Progress.Returns env) ps rs ∧ (k rs).Returns env b

end Progress

/-- Beginning a task rules values out and never adds any. -/
theorem advance_returns (env : Environment I σ) (now : Nat) (t : Task I ε α) (s : σ) (a : α)
    (h : (t.advance env now s).1.Returns env a) : t.Returns env a := by
  induction t generalizing s with
  | done b =>
    obtain rfl : b = a := h
    exact .done b
  | call c k ih =>
    unfold advance at h
    split at h
    · rename_i s' _
      exact .call c k now s' a (ih _ _ h)
    · exact h
  | group ms k ih =>
    have hmembers := Action.Progress.each_returns env
      (fun (m : Action I (Except ε Unit)) s => m.advance env now s) (Action.Returns env)
      (fun m s r hr => m.advance_returns env now s r hr) ms s
    unfold advance at h
    dsimp only at h
    split at h
    · rename_i rs hvalues
      refine .group ms k rs a (hmembers rs ?_) (ih rs _ h)
      rw [Action.Progress.mapM_value?_eq_some _ rs hvalues]
      exact Action.Progress.forall₂_finished env rs
    · obtain ⟨rs, hrs, hk⟩ := h
      exact .group ms k rs a (hmembers rs hrs) hk

/-- Going on rules values out and never adds any. -/
theorem Progress.resume_returns (env : Environment I σ) (now : Nat) (p : Progress I ε α)
    (s : σ) (a : α) (h : (p.resume env now s).1.Returns env a) : p.Returns env a := by
  cases p with
  | finished b => exact h
  | awaiting due c k =>
    simp only [Progress.resume] at h
    split at h
    · exact .call c k now s a (advance_returns env now _ _ a h)
    · exact h
  | joining ps k =>
    have hmembers := Action.Progress.each_returns env
      (fun (p : Action.Progress I (Except ε Unit)) s => p.resume env now s)
      (Action.Progress.Returns env) (fun p s r hr => p.resume_returns env now s r hr) ps s
    simp only [Progress.resume] at h
    split at h
    · rename_i rs hvalues
      refine ⟨rs, hmembers rs ?_, advance_returns env now _ _ a h⟩
      rw [Action.Progress.mapM_value?_eq_some _ rs hvalues]
      exact Action.Progress.forall₂_finished env rs
    · obtain ⟨rs, hrs, hk⟩ := h
      exact ⟨rs, hmembers rs hrs, hk⟩

end Task
end Reconciliation
