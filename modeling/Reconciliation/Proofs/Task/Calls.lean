import Reconciliation.Proofs.Task.Invariant

/-!
The calls of work on a clock. An environment can note the calls that it is issued and answer all
of them as before. Whatever the answers are, work only issues the calls that it may make.
-/
namespace Reconciliation

namespace Environment
variable {I : Interface} {σ β : Type}

/-- The same environment, which also notes the calls that it is issued, in order. -/
def noting (env : Environment I σ) : Environment I (σ × List I.Call) where
  issue := fun now c s => ((env.issue now c s.1).1, (env.issue now c s.1).2, s.2 ++ [c])
  answer := fun now c s => ((env.answer now c s.1).1, (env.answer now c s.1).2, s.2)

theorem issue_noting (env : Environment I σ) (now : Nat) (c : I.Call) (s : σ × List I.Call)
    (delay : Nat) (s' : σ) (h : env.issue now c s.1 = (delay, s')) :
    env.noting.issue now c s = (delay, s', s.2 ++ [c]) := by
  change ((env.issue now c s.1).1, (env.issue now c s.1).2, s.2 ++ [c]) = _
  rw [h]

/-- What is left of a result and a state without the notes. -/
def withoutNotes (x : β × σ × List I.Call) : β × σ := (x.1, x.2.1)

/-- Only calls with the property are noted. -/
def NotesOnly (allowed : I.Call → Prop) (s : σ × List I.Call) : Prop := ∀ c ∈ s.2, allowed c

theorem noting_keeps (env : Environment I σ) (allowed : I.Call → Prop) (c : I.Call)
    (hc : allowed c) (next : I.Reply c → Prop) (hnext : ∀ now s, next (env.answer now c s).1) :
    env.noting.Keeps (NotesOnly allowed) c next := by
  refine ⟨fun now s hs => ?_, fun now s hs => ⟨hs, hnext now s.1⟩⟩
  intro c' hc'
  rcases List.mem_append.mp hc' with hold | hnew
  · exact hs c' hold
  · rw [List.mem_singleton.mp hnew]
    exact hc

end Environment

open Environment

namespace Action
variable {I : Interface} {α σ : Type}

/-- Noting the calls changes nothing but the notes. -/
theorem advance_noting (env : Environment I σ) (now : Nat) (t : Action I α)
    (s : σ × List I.Call) :
    withoutNotes (t.advance env.noting now s) = t.advance env now s.1 := by
  induction t generalizing s with
  | done a => rfl
  | call c k ih =>
    unfold advance
    rcases hissue : env.issue now c s.1 with ⟨delay, s'⟩
    rw [env.issue_noting now c s delay s' hissue]
    cases delay with
    | zero => exact ih _ _
    | succ delay => rfl

namespace Progress

theorem resume_noting (env : Environment I σ) (now : Nat) (p : Progress I α)
    (s : σ × List I.Call) :
    withoutNotes (p.resume env.noting now s) = p.resume env now s.1 := by
  cases p with
  | finished a => rfl
  | awaiting due c k =>
    by_cases hdue : due ≤ now
    · simp only [resume, hdue, if_true]
      exact advance_noting env now _ _
    · simp only [resume, hdue, if_false]
      rfl

/-- If one member goes on in the same way with notes, all members one after another do. -/
theorem each_noting {π : Type} (noted : π → σ × List I.Call → Progress I α × σ × List I.Call)
    (step : π → σ → Progress I α × σ) (hstep : ∀ p s, withoutNotes (noted p s) = step p s.1)
    (members : List π) (s : σ × List I.Call) :
    withoutNotes (each noted members s) = each step members s.1 := by
  induction members generalizing s with
  | nil => rfl
  | cons p rest ih =>
    have hrest := ih (noted p s).2
    have hfirst := hstep p s
    unfold withoutNotes at hrest hfirst ⊢
    unfold each
    dsimp only
    rw [← hfirst]
    dsimp only
    rw [← hrest]

end Progress

/-- The action makes the call under some answers of the environment. -/
inductive MayCall (env : Environment I σ) : Action I α → I.Call → Prop
  | now (c : I.Call) (k : I.Reply c → Action I α) : MayCall env (.call c k) c
  | later (c : I.Call) (k : I.Reply c → Action I α) (now : Nat) (s : σ) (c' : I.Call)
      (h : MayCall env (k (env.answer now c s).1) c') : MayCall env (.call c k) c'

theorem ensures_noting (env : Environment I σ) (allowed : I.Call → Prop) (t : Action I α)
    (h : ∀ c, t.MayCall env c → allowed c) :
    t.Ensures env.noting (NotesOnly allowed) fun _ => True := by
  induction t with
  | done a => trivial
  | call c k ih =>
    refine env.noting_keeps allowed c (h c (.now c k)) _ fun now s => ?_
    exact ih _ fun c' hc' => h c' (.later c k now s c' hc')

end Action

namespace Task
variable {I : Interface} {ε α σ : Type}

/-- The same for tasks, whose groups begin all of their members. -/
theorem advance_noting (env : Environment I σ) (now : Nat) (t : Task I ε α)
    (s : σ × List I.Call) :
    withoutNotes (t.advance env.noting now s) = t.advance env now s.1 := by
  induction t generalizing s with
  | done a => rfl
  | call c k ih =>
    unfold advance
    rcases hissue : env.issue now c s.1 with ⟨delay, s'⟩
    rw [env.issue_noting now c s delay s' hissue]
    cases delay with
    | zero => exact ih _ _
    | succ delay => rfl
  | group ms k ih =>
    have hmembers := Action.Progress.each_noting (fun m s => m.advance env.noting now s)
      (fun m s => m.advance env now s) (fun m s => m.advance_noting env now s) ms s
    unfold withoutNotes at hmembers
    unfold advance
    dsimp only
    rw [← hmembers]
    dsimp only
    split
    · exact ih _ _
    · rfl

/-- Work under way goes on in the same way when its calls are noted. -/
theorem Progress.resume_noting (env : Environment I σ) (now : Nat) (p : Progress I ε α)
    (s : σ × List I.Call) :
    withoutNotes (p.resume env.noting now s) = p.resume env now s.1 := by
  cases p with
  | finished a => rfl
  | awaiting due c k =>
    by_cases hdue : due ≤ now
    · simp only [resume, hdue, if_true]
      exact advance_noting env now _ _
    · simp only [resume, hdue, if_false]
      rfl
  | joining ps k =>
    have hmembers := Action.Progress.each_noting (fun p s => p.resume env.noting now s)
      (fun p s => p.resume env now s) (fun p s => p.resume_noting env now s) ps s
    unfold withoutNotes at hmembers
    simp only [resume]
    rw [← hmembers]
    dsimp only
    split
    · exact advance_noting env now _ _
    · rfl

/-- The task makes the call, itself or in a member of a group, under some answers of the
environment and some results of its groups. -/
inductive MayCall (env : Environment I σ) : Task I ε α → I.Call → Prop
  | now (c : I.Call) (k : I.Reply c → Task I ε α) : MayCall env (.call c k) c
  | later (c : I.Call) (k : I.Reply c → Task I ε α) (now : Nat) (s : σ) (c' : I.Call)
      (h : MayCall env (k (env.answer now c s).1) c') : MayCall env (.call c k) c'
  | member (ms : List (Action I (Except ε Unit))) (k : List (Except ε Unit) → Task I ε α)
      (m : Action I (Except ε Unit)) (hm : m ∈ ms) (c : I.Call) (h : m.MayCall env c) :
      MayCall env (.group ms k) c
  | joined (ms : List (Action I (Except ε Unit))) (k : List (Except ε Unit) → Task I ε α)
      (rs : List (Except ε Unit)) (c : I.Call) (h : MayCall env (k rs) c) :
      MayCall env (.group ms k) c

theorem ensures_noting (env : Environment I σ) (allowed : I.Call → Prop) (t : Task I ε α)
    (h : ∀ c, t.MayCall env c → allowed c) :
    t.Ensures env.noting (NotesOnly allowed) fun _ => True := by
  induction t with
  | done a => trivial
  | call c k ih =>
    refine env.noting_keeps allowed c (h c (.now c k)) _ fun now s => ?_
    exact ih _ fun c' hc' => h c' (.later c k now s c' hc')
  | group ms k ih =>
    refine ⟨fun m hm => ?_, fun rs => ih rs fun c hc => h c (.joined ms k rs c hc)⟩
    exact m.ensures_noting env allowed fun c hc => h c (.member ms k m hm c hc)

end Task
end Reconciliation
