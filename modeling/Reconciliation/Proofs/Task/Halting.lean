import Reconciliation.Task.Clocked
import Mathlib.Logic.Hydra

/-!
Work on a clock comes to an end. Each time something that is due goes on, the rest of the work
is a smaller part of it, whatever the answer was; a group goes on with smaller parts of some
members. So no work can go on for ever.
-/
namespace Reconciliation

open Relation

namespace Action
variable {I : Interface} {α σ : Type}

namespace Progress

/-- Something that was due has gone on. -/
def Later (env : Environment I σ) (q p : Progress I α) : Prop :=
  ∃ now s, (∃ due ∈ p.dues, due ≤ now) ∧ q = (p.resume env now s).1

theorem resume_early (env : Environment I σ) (now : Nat) (p : Progress I α) (s : σ)
    (h : ∀ due ∈ p.dues, ¬ due ≤ now) : p.resume env now s = (p, s) := by
  cases p with
  | finished a => rfl
  | awaiting due c k =>
    have hdue : ¬ due ≤ now := h due List.mem_cons_self
    simp only [resume, hdue, if_false]

theorem acc_finished (env : Environment I σ) (a : α) :
    Acc (Later env) (finished a : Progress I α) := by
  refine Acc.intro _ fun q ⟨now, s, ⟨due, hmem, _⟩, _⟩ => ?_
  cases hmem

theorem acc_awaiting (env : Environment I σ) (due : Nat) (c : I.Call)
    (k : I.Reply c → Action I α)
    (hk : ∀ r now s, Acc (Later env) ((k r).advance env now s).1) :
    Acc (Later env) (awaiting due c k) := by
  refine Acc.intro _ fun q ⟨now, s, ⟨d, hmem, hd⟩, hq⟩ => ?_
  obtain rfl : d = due := List.mem_singleton.mp hmem
  rw [hq]
  simp only [resume, hd, if_true]
  exact hk _ now _

end Progress

open Progress in
theorem acc_advance (env : Environment I σ) (t : Action I α) (now : Nat) (s : σ) :
    Acc (Later env) (t.advance env now s).1 := by
  induction t generalizing now s with
  | done a => exact acc_finished env a
  | call c k ih =>
    unfold advance
    split
    · exact ih _ now _
    · exact acc_awaiting env _ c k ih

namespace Progress

theorem later_wellFounded (env : Environment I σ) :
    WellFounded (Later env : Progress I α → Progress I α → Prop) := by
  refine ⟨fun p => ?_⟩
  cases p with
  | finished a => exact acc_finished env a
  | awaiting due c k => exact acc_awaiting env due c k fun r => (k r).acc_advance env

/-- One member after another goes on or stays as it is. -/
theorem each_resume_le (env : Environment I σ) (now : Nat) (ps : List (Progress I α)) (s : σ) :
    ReflTransGen (CutExpand (Later env))
      (each (fun p s => p.resume env now s) ps s).1 (ps : Multiset (Progress I α)) := by
  induction ps generalizing s with
  | nil => exact .refl
  | cons p rest ih =>
    unfold each
    dsimp only
    rw [← Multiset.cons_coe, ← Multiset.cons_coe, ← Multiset.singleton_add,
      ← Multiset.singleton_add]
    have hrest := (ih (p.resume env now s).2).lift ({p} + ·)
      fun _ _ h => (cutExpand_add_left {p}).mpr h
    by_cases hdue : ∃ due ∈ p.dues, due ≤ now
    · exact .head (cutExpand_single_add ⟨now, s, hdue, rfl⟩ _) hrest
    · have hearly := p.resume_early env now s fun due hmem hle => hdue ⟨due, hmem, hle⟩
      rw [hearly] at hrest ⊢
      exact hrest

/-- If something is due in a group, then some member goes on. -/
theorem each_resume_lt (env : Environment I σ) (now : Nat) (ps : List (Progress I α)) (s : σ)
    (h : ∃ p ∈ ps, ∃ due ∈ p.dues, due ≤ now) :
    TransGen (CutExpand (Later env))
      (each (fun p s => p.resume env now s) ps s).1 (ps : Multiset (Progress I α)) := by
  induction ps generalizing s with
  | nil =>
    obtain ⟨p, hp, _⟩ := h
    cases hp
  | cons p rest ih =>
    unfold each
    dsimp only
    rw [← Multiset.cons_coe, ← Multiset.cons_coe, ← Multiset.singleton_add,
      ← Multiset.singleton_add]
    by_cases hdue : ∃ due ∈ p.dues, due ≤ now
    · have hrest := (each_resume_le env now rest (p.resume env now s).2).lift ({p} + ·)
        fun _ _ h => (cutExpand_add_left {p}).mpr h
      exact .head' (cutExpand_single_add ⟨now, s, hdue, rfl⟩ _) hrest
    · have hrest : ∃ q ∈ rest, ∃ due ∈ q.dues, due ≤ now := by
        obtain ⟨q, hq, hqdue⟩ := h
        rcases List.mem_cons.mp hq with rfl | hq
        · exact absurd hqdue hdue
        · exact ⟨q, hq, hqdue⟩
      have hearly := p.resume_early env now s fun due hmem hle => hdue ⟨due, hmem, hle⟩
      rw [hearly]
      exact (ih s hrest).lift ({p} + ·) fun _ _ h => (cutExpand_add_left {p}).mpr h

/-- A group without all of its values has a member that waits. -/
theorem exists_due_of_mapM_eq_none (ps : List (Progress I α))
    (h : ps.mapM Progress.value? = none) : ∃ p ∈ ps, p.dues ≠ [] := by
  induction ps with
  | nil => cases h
  | cons p rest ih =>
    cases p with
    | awaiting due c k => exact ⟨_, List.mem_cons_self, List.cons_ne_nil due []⟩
    | finished a =>
      rw [List.mapM_cons] at h
      cases hrest : rest.mapM Progress.value? with
      | some as =>
        rw [hrest] at h
        cases h
      | none =>
        obtain ⟨q, hq, hdues⟩ := ih hrest
        exact ⟨q, List.mem_cons_of_mem _ hq, hdues⟩

theorem each_resume_early (env : Environment I σ) (now : Nat) (ps : List (Progress I α)) (s : σ)
    (h : ∀ p ∈ ps, ∀ due ∈ p.dues, ¬ due ≤ now) :
    each (fun p s => p.resume env now s) ps s = (ps, s) := by
  induction ps generalizing s with
  | nil => rfl
  | cons p rest ih =>
    unfold each
    dsimp only
    rw [p.resume_early env now s (h p List.mem_cons_self)]
    dsimp only
    rw [ih s fun q hq => h q (List.mem_cons_of_mem p hq)]

/-- A group with a member that waits has no value. -/
theorem mapM_eq_none_of_due (ps : List (Progress I α)) (p : Progress I α) (hp : p ∈ ps)
    (hdues : p.dues ≠ []) : ps.mapM Progress.value? = none := by
  induction ps with
  | nil => cases hp
  | cons q rest ih =>
    rw [List.mapM_cons]
    cases q with
    | awaiting due c k => rfl
    | finished a =>
      rcases List.mem_cons.mp hp with rfl | hp
      · exact absurd rfl hdues
      · rw [ih hp]
        rfl

end Progress
end Action

namespace Task
variable {I : Interface} {ε α σ : Type}

namespace Progress

/-- Something that was due has gone on. -/
def Later (env : Environment I σ) (q p : Progress I ε α) : Prop :=
  ∃ now s, (∃ due ∈ p.dues, due ≤ now) ∧ q = (p.resume env now s).1

theorem acc_finished (env : Environment I σ) (a : α) :
    Acc (Later env) (finished a : Progress I ε α) := by
  refine Acc.intro _ fun q ⟨now, s, ⟨due, hmem, _⟩, _⟩ => ?_
  cases hmem

theorem acc_awaiting (env : Environment I σ) (due : Nat) (c : I.Call)
    (k : I.Reply c → Task I ε α)
    (hk : ∀ r now s, Acc (Later env) ((k r).advance env now s).1) :
    Acc (Later env) (awaiting due c k) := by
  refine Acc.intro _ fun q ⟨now, s, ⟨d, hmem, hd⟩, hq⟩ => ?_
  obtain rfl : d = due := List.mem_singleton.mp hmem
  rw [hq]
  simp only [resume, hd, if_true]
  exact hk _ now _

/-- A group ends because its members do, and then goes on with a part of the task. -/
theorem acc_joining (env : Environment I σ) (k : List (Except ε Unit) → Task I ε α)
    (hk : ∀ rs now s, Acc (Later env) ((k rs).advance env now s).1)
    (ps : List (Action.Progress I (Except ε Unit))) : Acc (Later env) (joining ps k) := by
  have hmember : WellFounded
      (Action.Progress.Later env : Action.Progress I (Except ε Unit) → _ → Prop) :=
    Action.Progress.later_wellFounded env
  have hmembers := InvImage.wf
    (fun ps : List (Action.Progress I (Except ε Unit)) => (ps : Multiset _))
    hmember.cutExpand.transGen
  induction ps using hmembers.induction with
  | _ ps ih =>
    refine Acc.intro _ fun q ⟨now, s, ⟨due, hmem, hle⟩, hq⟩ => ?_
    obtain ⟨p, hp, hdue⟩ := List.mem_flatMap.mp hmem
    rw [hq]
    simp only [resume]
    split
    · exact hk _ now _
    · exact ih _ (Action.Progress.each_resume_lt env now ps s ⟨p, hp, due, hdue, hle⟩)

end Progress

open Progress in
/-- Whatever is answered, work that has begun cannot go on for ever. -/
theorem acc_advance (env : Environment I σ) (t : Task I ε α) (now : Nat) (s : σ) :
    Acc (Later env) (t.advance env now s).1 := by
  induction t generalizing now s with
  | done a => exact acc_finished env a
  | call c k ih =>
    unfold advance
    split
    · exact ih _ now _
    · exact acc_awaiting env _ c k ih
  | group ms k ih =>
    unfold advance
    dsimp only
    split
    · exact ih _ now _
    · exact acc_joining env k ih _

namespace Progress

theorem later_wellFounded (env : Environment I σ) :
    WellFounded (Later env : Progress I ε α → Progress I ε α → Prop) := by
  refine ⟨fun p => ?_⟩
  cases p with
  | finished a => exact acc_finished env a
  | awaiting due c k => exact acc_awaiting env due c k fun r => (k r).acc_advance env
  | joining ps k => exact acc_joining env k (fun rs => (k rs).acc_advance env) ps

/-- Work that is not over waits for a time. -/
def Waits (p : Progress I ε α) : Prop := p.value? = none → p.dues ≠ []

theorem joining_waits (ps : List (Action.Progress I (Except ε Unit)))
    (k : List (Except ε Unit) → Task I ε α)
    (h : ps.mapM Action.Progress.value? = none) : (joining ps k).Waits := by
  intro _ hdues
  obtain ⟨p, hp, hne⟩ := Action.Progress.exists_due_of_mapM_eq_none ps h
  exact hne (List.flatMap_eq_nil_iff.mp hdues p hp)

end Progress

/-- Work that has just begun is over or waits for a time. -/
theorem advance_waits (env : Environment I σ) (now : Nat) (t : Task I ε α) (s : σ) :
    (t.advance env now s).1.Waits := by
  induction t generalizing s with
  | done a =>
    intro h
    cases h
  | call c k ih =>
    unfold advance
    split
    · exact ih _ _
    · exact fun _ => List.cons_ne_nil _ []
  | group ms k ih =>
    unfold advance
    dsimp only
    split
    · exact ih _ _
    · rename_i hnone
      exact Progress.joining_waits _ k hnone

theorem Progress.resume_early (env : Environment I σ) (now : Nat) (p : Progress I ε α) (s : σ)
    (h : ∀ due ∈ p.dues, ¬ due ≤ now) (hdues : p.dues ≠ []) :
    p.resume env now s = (p, s) := by
  cases p with
  | finished a => rfl
  | awaiting due c k =>
    have hdue : ¬ due ≤ now := h due List.mem_cons_self
    simp only [resume, hdue, if_false]
  | joining ps k =>
    have hmembers : ∀ p ∈ ps, ∀ due ∈ p.dues, ¬ due ≤ now :=
      fun p hp due hdue => h due (List.mem_flatMap.mpr ⟨p, hp, hdue⟩)
    have hnone : ps.mapM Action.Progress.value? = none := by
      obtain ⟨due, hdue⟩ := List.exists_mem_of_ne_nil _ hdues
      obtain ⟨p, hp, hmem⟩ := List.mem_flatMap.mp hdue
      exact Action.Progress.mapM_eq_none_of_due ps p hp (List.ne_nil_of_mem hmem)
    simp only [resume, Action.Progress.each_resume_early env now ps s hmembers, hnone]

theorem Progress.resume_waits (env : Environment I σ) (now : Nat) (p : Progress I ε α)
    (s : σ) : (p.resume env now s).1.Waits := by
  cases p with
  | finished a =>
    intro h
    cases h
  | awaiting due c k =>
    simp only [resume]
    split
    · exact advance_waits env now _ _
    · exact fun _ => List.cons_ne_nil _ []
  | joining ps k =>
    simp only [resume]
    split
    · exact advance_waits env now _ _
    · rename_i hnone
      exact joining_waits _ k hnone

end Task
end Reconciliation
