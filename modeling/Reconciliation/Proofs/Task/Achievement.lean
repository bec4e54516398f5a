import Reconciliation.Proofs.Task.Returns
import Mathlib.Order.Defs.Unbundled

/-!
What work achieves while other work goes on. All calls move the state along one relation, say that
objects only vanish, and no move along it undoes a goal. So a goal that one call has reached still
stands when the work is over, whatever was done in between.
-/
namespace Reconciliation

/-- What is to hold of a state. No move undoes it. -/
structure Goal {σ : Type} (moves : σ → σ → Prop) where
  Holds : σ → Prop
  lasts : ∀ s s', moves s s' → Holds s → Holds s'

namespace Goal
variable {σ : Type} {moves : σ → σ → Prop}

def anything : Goal moves := ⟨fun _ => True, fun _ _ _ _ => trivial⟩

/-- The goal counts only if there is a value. -/
def ifOk {ε α : Type} (goal : α → Goal moves) : Except ε α → Goal moves
  | .ok a => goal a
  | .error _ => anything

end Goal

/-- The call moves the state on, and what follows the answer is as it should be. -/
structure Environment.Moves {I : Interface} {σ : Type} (env : Environment I σ)
    (moves : σ → σ → Prop) (c : I.Call) (next : I.Reply c → σ → Prop) (s : σ) : Prop where
  issue : ∀ now, moves s (env.issue now c s).2
  answer : ∀ now, moves s (env.answer now c s).2
  next : ∀ now, next (env.answer now c s).1 (env.answer now c s).2

namespace Action
variable {I : Interface} {α β σ : Type} {moves : σ → σ → Prop} {env : Environment I σ}

/-- Whatever moves the state in between, every call moves it on, and with the value the goal is
reached. -/
def Achieves (env : Environment I σ) (goal : α → Goal moves) : Action I α → σ → Prop
  | done a, s => (goal a).Holds s
  | call c k, s => ∀ s', moves s s' → env.Moves moves c (fun r => (k r).Achieves env goal) s'

/-- No other calls are made, whatever is answered. -/
def CallsOnly (allowed : I.Call → Prop) : Action I α → Prop
  | done _ => True
  | call c k => allowed c ∧ ∀ r, (k r).CallsOnly allowed

theorem CallsOnly.bind {allowed : I.Call → Prop} {t : Action I α} {f : α → Action I β}
    (ht : t.CallsOnly allowed) (hf : ∀ a, (f a).CallsOnly allowed) :
    (t.bind f).CallsOnly allowed := by
  induction t with
  | done a => exact hf a
  | call c k ih => exact ⟨ht.1, fun r => ih r (ht.2 r)⟩

theorem CallsOnly.andThen {ε : Type} {allowed : I.Call → Prop} {t : Action I (Except ε α)}
    {f : α → Action I (Except ε β)} (ht : t.CallsOnly allowed)
    (hf : ∀ a, (f a).CallsOnly allowed) : (t.andThen f).CallsOnly allowed := by
  refine ht.bind fun outcome => ?_
  cases outcome with
  | ok a => exact hf a
  | error e => trivial

/-- Calls that move any state on undo nothing. -/
theorem CallsOnly.achieves {allowed : I.Call → Prop} {t : Action I α}
    (h : t.CallsOnly allowed) (hmoves : ∀ c, allowed c → ∀ now s,
      moves s (env.issue now c s).2 ∧ moves s (env.answer now c s).2) (s : σ) :
    t.Achieves env (fun _ => (Goal.anything : Goal moves)) s := by
  induction t generalizing s with
  | done a => trivial
  | call c k ih =>
    intro s' _
    have hcall := fun now => hmoves c h.1 now s'
    exact ⟨fun now => (hcall now).1, fun now => (hcall now).2, fun now => ih _ (h.2 _) _⟩

variable [IsPreorder σ moves]

/-- What work achieves it still achieves after moves of others. -/
theorem Achieves.later {goal : α → Goal moves} {t : Action I α} {s s' : σ}
    (h : t.Achieves env goal s) (hmove : moves s s') : t.Achieves env goal s' := by
  cases t with
  | done a => exact (goal a).lasts s s' hmove h
  | call c k => exact fun s'' hmove' => h s'' (trans_of moves hmove hmove')

/-- What is known after the first part may be used for the second one, in any later state. -/
theorem Achieves.bind {mid : α → Goal moves} {goal : β → Goal moves} {t : Action I α}
    {f : α → Action I β} {s : σ} (ht : t.Achieves env mid s)
    (hf : ∀ a s', moves s s' → (mid a).Holds s' → (f a).Achieves env goal s') :
    (t.bind f).Achieves env goal s := by
  induction t generalizing s with
  | done a => exact hf a s (refl_of moves s) ht
  | call c k ih =>
    intro s' hmove
    have hcall := ht s' hmove
    refine ⟨hcall.issue, hcall.answer, fun now => ih _ (hcall.next now) ?_⟩
    intro a s'' hmove'
    exact hf a s'' (trans_of moves hmove (trans_of moves (hcall.answer now) hmove'))

theorem Achieves.andThen {ε : Type} {mid : α → Goal moves} {goal : β → Goal moves}
    {t : Action I (Except ε α)} {f : α → Action I (Except ε β)} {s : σ}
    (ht : t.Achieves env (Goal.ifOk mid) s)
    (hf : ∀ a s', moves s s' → (mid a).Holds s' → (f a).Achieves env (Goal.ifOk goal) s') :
    (t.andThen f).Achieves env (Goal.ifOk goal) s := by
  refine ht.bind fun outcome s' hmove hmid => ?_
  cases outcome with
  | ok a => exact hf a s' hmove hmid
  | error e => trivial

namespace Progress

/-- What is still to be called moves the state on to the goal. -/
def Achieves (env : Environment I σ) (goal : α → Goal moves) : Progress I α → σ → Prop
  | finished a, s => (goal a).Holds s
  | awaiting _ c k, s => (call c k).Achieves env goal s

theorem Achieves.later {goal : α → Goal moves} {p : Progress I α} {s s' : σ}
    (h : p.Achieves env goal s) (hmove : moves s s') : p.Achieves env goal s' := by
  cases p with
  | finished a => exact (goal a).lasts s s' hmove h
  | awaiting due c k => exact Action.Achieves.later (t := call c k) h hmove

end Progress

/-- The state has moved on, and the goal is reached or will be. -/
theorem Achieves.advance {goal : α → Goal moves} {t : Action I α} {s : σ}
    (h : t.Achieves env goal s) (now : Nat) :
    (t.advance env now s).1.Achieves env goal (t.advance env now s).2 ∧
      moves s (t.advance env now s).2 := by
  induction t generalizing s with
  | done a => exact ⟨h, refl_of moves s⟩
  | call c k ih =>
    have hissued := (h s (refl_of moves s)).issue now
    unfold Action.advance
    split
    · rename_i s' heq
      rw [heq] at hissued
      have hcall := h s' hissued
      obtain ⟨hlast, hmoved⟩ := ih _ (hcall.next now)
      exact ⟨hlast, trans_of moves hissued (trans_of moves (hcall.answer now) hmoved)⟩
    · rename_i delay s' _ heq
      rw [heq] at hissued
      exact ⟨Achieves.later (t := call c k) h hissued, hissued⟩

namespace Progress

/-- Going on keeps what is to be achieved. -/
theorem Achieves.resume {goal : α → Goal moves} {p : Progress I α} {s : σ}
    (h : p.Achieves env goal s) (now : Nat) :
    (p.resume env now s).1.Achieves env goal (p.resume env now s).2 ∧
      moves s (p.resume env now s).2 := by
  cases p with
  | finished a => exact ⟨h, refl_of moves s⟩
  | awaiting due c k =>
    simp only [Progress.resume]
    split
    · have hcall := h s (refl_of moves s)
      obtain ⟨hlast, hmoved⟩ := (hcall.next now).advance now
      exact ⟨hlast, trans_of moves (hcall.answer now) hmoved⟩
    · exact ⟨h, refl_of moves s⟩

/-- A step of each member in turn. What one of them has achieved the others do not undo. -/
theorem each_achieves {π : Type} (step : π → σ → Progress I α × σ)
    (before : π → Goal moves → σ → Prop)
    (hlater : ∀ p goal s s', moves s s' → before p goal s → before p goal s')
    (hstep : ∀ p goal s, before p goal s →
      (step p s).1.Achieves env (fun _ => goal) (step p s).2 ∧ moves s (step p s).2)
    (members : List π) (goals : List (Goal moves)) (s : σ)
    (h : List.Forall₂ (fun p goal => before p goal s) members goals) :
    List.Forall₂ (fun q goal => q.Achieves env (fun _ => goal) (each step members s).2)
        (each step members s).1 goals ∧
      moves s (each step members s).2 := by
  induction members generalizing goals s with
  | nil =>
    cases h
    exact ⟨.nil, refl_of moves s⟩
  | cons p rest ih =>
    cases h with
    | cons hfirst hrest =>
      obtain ⟨hstepped, hmoved⟩ := hstep p _ s hfirst
      have hothers := hrest.imp fun q goal hq => hlater q goal s (step p s).2 hmoved hq
      obtain ⟨hlast, hmoved'⟩ := ih _ _ hothers
      exact ⟨.cons (hstepped.later hmoved') hlast, trans_of moves hmoved hmoved'⟩

end Progress
end Action

namespace Task
variable {I : Interface} {ε α β σ : Type} {moves : σ → σ → Prop} {env : Environment I σ}

/-- The members of a group have goals of their own, which hold when the group is over. -/
def Achieves (env : Environment I σ) (goal : α → Goal moves) : Task I ε α → σ → Prop
  | done a, s => (goal a).Holds s
  | call c k, s => ∀ s', moves s s' → env.Moves moves c (fun r => (k r).Achieves env goal) s'
  | group ms k, s => ∃ goals : List (Goal moves),
    List.Forall₂ (fun m goal => m.Achieves env (fun _ => goal) s) ms goals ∧
      ∀ rs s', moves s s' → (∀ goal ∈ goals, goal.Holds s') → (k rs).Achieves env goal s'

theorem achieves_ofAction {goal : α → Goal moves} {t : Action I α} {s : σ}
    (h : t.Achieves env goal s) : (ofAction t : Task I ε α).Achieves env goal s := by
  induction t generalizing s with
  | done a => exact h
  | call c k ih =>
    intro s' hmove
    have hcall := h s' hmove
    exact ⟨hcall.issue, hcall.answer, fun now => ih _ (hcall.next now)⟩

variable [IsPreorder σ moves]

theorem Achieves.later {goal : α → Goal moves} {t : Task I ε α} {s s' : σ}
    (h : t.Achieves env goal s) (hmove : moves s s') : t.Achieves env goal s' := by
  cases t with
  | done a => exact (goal a).lasts s s' hmove h
  | call c k => exact fun s'' hmove' => h s'' (trans_of moves hmove hmove')
  | group ms k =>
    obtain ⟨goals, hms, hk⟩ := h
    refine ⟨goals, hms.imp fun m goal hm => hm.later hmove, fun rs s'' hmove' => ?_⟩
    exact hk rs s'' (trans_of moves hmove hmove')

/-- The same as for actions; a failure of the first part ends the work. -/
theorem Achieves.bind {mid : α → Goal moves} {goal : β → Goal moves} {t : Task I ε α}
    {f : α → Task I ε β} {s : σ} (ht : t.Achieves env mid s)
    (hf : ∀ a s', moves s s' → (mid a).Holds s' → (f a).Achieves env goal s') :
    (t.bind f).Achieves env goal s := by
  induction t generalizing s with
  | done a => exact hf a s (refl_of moves s) ht
  | call c k ih =>
    intro s' hmove
    have hcall := ht s' hmove
    refine ⟨hcall.issue, hcall.answer, fun now => ih _ (hcall.next now) ?_⟩
    intro a s'' hmove'
    exact hf a s'' (trans_of moves hmove (trans_of moves (hcall.answer now) hmove'))
  | group ms k ih =>
    obtain ⟨goals, hms, hk⟩ := ht
    refine ⟨goals, hms, fun rs s' hmove hgoals => ih rs (hk rs s' hmove hgoals) ?_⟩
    exact fun a s'' hmove' => hf a s'' (trans_of moves hmove hmove')

theorem Achieves.andThen {mid : α → Goal moves} {goal : β → Goal moves}
    {t : Task I ε (Except ε α)} {f : α → Task I ε (Except ε β)} {s : σ}
    (ht : t.Achieves env (Goal.ifOk mid) s)
    (hf : ∀ a s', moves s s' → (mid a).Holds s' → (f a).Achieves env (Goal.ifOk goal) s') :
    (t.andThen f).Achieves env (Goal.ifOk goal) s := by
  refine ht.bind fun outcome s' hmove hmid => ?_
  cases outcome with
  | ok a => exact hf a s' hmove hmid
  | error e => trivial

namespace Progress

/-- What is still to be called moves the state on to the goal. -/
def Achieves (env : Environment I σ) (goal : α → Goal moves) : Progress I ε α → σ → Prop
  | finished a, s => (goal a).Holds s
  | awaiting _ c k, s => (call c k : Task I ε α).Achieves env goal s
  | joining ps k, s => ∃ goals : List (Goal moves),
    List.Forall₂ (fun p goal => p.Achieves env (fun _ => goal) s) ps goals ∧
      ∀ rs s', moves s s' → (∀ goal ∈ goals, goal.Holds s') → (k rs).Achieves env goal s'

theorem Achieves.later {goal : α → Goal moves} {p : Progress I ε α} {s s' : σ}
    (h : p.Achieves env goal s) (hmove : moves s s') : p.Achieves env goal s' := by
  cases p with
  | finished a => exact (goal a).lasts s s' hmove h
  | awaiting due c k => exact Task.Achieves.later (t := call c k) h hmove
  | joining ps k =>
    obtain ⟨goals, hps, hk⟩ := h
    refine ⟨goals, hps.imp fun p goal hp => hp.later hmove, fun rs s'' hmove' => ?_⟩
    exact hk rs s'' (trans_of moves hmove hmove')

omit [IsPreorder σ moves] in
theorem Achieves.value {goal : α → Goal moves} {p : Progress I ε α} {s : σ}
    (h : p.Achieves env goal s) {a : α} (ha : p.value? = some a) : (goal a).Holds s := by
  cases p with
  | finished b =>
    rw [← Option.some.inj ha]
    exact h
  | awaiting due c k => cases ha
  | joining ps k => cases ha

end Progress

omit [IsPreorder σ moves] in
/-- When every member of a group is over, each has reached its goal. -/
theorem holds_of_values {ps : List (Action.Progress I (Except ε Unit))}
    {goals : List (Goal moves)} {s : σ}
    (h : List.Forall₂ (fun p goal => p.Achieves env (fun _ => goal) s) ps goals)
    (rs : List (Except ε Unit)) (hrs : ps.mapM Action.Progress.value? = some rs) :
    ∀ goal ∈ goals, goal.Holds s := by
  rw [Action.Progress.mapM_value?_eq_some ps rs hrs, List.forall₂_map_left_iff] at h
  have hgoals : List.Forall₂ (fun goal (_ : Except ε Unit) => goal.Holds s ∧ True) goals rs :=
    (h.imp fun _ _ hgoal => ⟨hgoal, trivial⟩).flip
  exact ((List.forall₂_and_left goals rs).mp hgoals).1

/-- The induction is on the task; the members of a group advance one after another in the same
state. -/
theorem Achieves.advance {goal : α → Goal moves} {t : Task I ε α} {s : σ}
    (h : t.Achieves env goal s) (now : Nat) :
    (t.advance env now s).1.Achieves env goal (t.advance env now s).2 ∧
      moves s (t.advance env now s).2 := by
  induction t generalizing s with
  | done a => exact ⟨h, refl_of moves s⟩
  | call c k ih =>
    have hissued := (h s (refl_of moves s)).issue now
    unfold Task.advance
    split
    · rename_i s' heq
      rw [heq] at hissued
      have hcall := h s' hissued
      obtain ⟨hlast, hmoved⟩ := ih _ (hcall.next now)
      exact ⟨hlast, trans_of moves hissued (trans_of moves (hcall.answer now) hmoved)⟩
    · rename_i delay s' _ heq
      rw [heq] at hissued
      exact ⟨Achieves.later (t := call c k) h hissued, hissued⟩
  | group ms k ih =>
    obtain ⟨goals, hms, hk⟩ := h
    obtain ⟨hmembers, hmoved⟩ := Action.Progress.each_achieves (fun m s => m.advance env now s)
      (fun m goal => m.Achieves env fun _ => goal) (fun _ _ _ _ hmove h => h.later hmove)
      (fun _ _ _ h => h.advance now) ms goals s hms
    unfold Task.advance
    dsimp only
    split
    · rename_i rs hvalues
      obtain ⟨hlast, hmoved'⟩ := ih rs (hk rs _ hmoved (holds_of_values hmembers rs hvalues))
      exact ⟨hlast, trans_of moves hmoved hmoved'⟩
    · refine ⟨⟨goals, hmembers, fun rs s' hmove => ?_⟩, hmoved⟩
      exact hk rs s' (trans_of moves hmoved hmove)

/-- The induction is on the progress; each member of a group finds the state as the ones before have
left it. -/
theorem Progress.Achieves.resume {goal : α → Goal moves} {p : Progress I ε α} {s : σ}
    (h : p.Achieves env goal s) (now : Nat) :
    (p.resume env now s).1.Achieves env goal (p.resume env now s).2 ∧
      moves s (p.resume env now s).2 := by
  cases p with
  | finished a => exact ⟨h, refl_of moves s⟩
  | awaiting due c k =>
    simp only [Progress.resume]
    split
    · have hcall := h s (refl_of moves s)
      obtain ⟨hlast, hmoved⟩ := (hcall.next now).advance now
      exact ⟨hlast, trans_of moves (hcall.answer now) hmoved⟩
    · exact ⟨h, refl_of moves s⟩
  | joining ps k =>
    obtain ⟨goals, hps, hk⟩ := h
    obtain ⟨hmembers, hmoved⟩ := Action.Progress.each_achieves (fun p s => p.resume env now s)
      (fun p goal => p.Achieves env fun _ => goal) (fun _ _ _ _ hmove h => h.later hmove)
      (fun _ _ _ h => h.resume now) ps goals s hps
    simp only [Progress.resume]
    split
    · rename_i rs hvalues
      have hgoals := holds_of_values hmembers rs hvalues
      obtain ⟨hlast, hmoved'⟩ := (hk rs _ hmoved hgoals).advance now
      exact ⟨hlast, trans_of moves hmoved hmoved'⟩
    · refine ⟨⟨goals, hmembers, fun rs s' hmove => ?_⟩, hmoved⟩
      exact hk rs s' (trans_of moves hmoved hmove)

end Task
end Reconciliation
