import Reconciliation.Proofs.Task.Notices
import Mathlib.Data.List.Forall2

/-!
Work without its notices. Work that is muted makes the same calls and comes to the same value, but
says nothing. On a clock, work with notices and the muted work go on side by side: they wait for
the same answers and leave the environment in the same state.
-/
namespace Reconciliation

namespace Action
variable {I : Interface} {N α β σ : Type}

/-- The same action without its notices. -/
def muted : Action (I.noticing N) α → Action I α
  | done a => .done a
  | call (.inl _) k => (k ()).muted
  | call (.inr c) k => .call c fun r => (k r).muted

/-- Gives these notices first. -/
def announce (notices : List N) (t : Action (I.noticing N) α) : Action (I.noticing N) α :=
  notices.foldr (fun n t => .call (.inl n) fun _ => t) t

/-- The same action with notices before it and, depending on its value, after it. -/
def reported (before : List N) (after : α → List N) (t : Action I α) :
    Action (I.noticing N) α :=
  announce before ((t.lifted N).bind fun a => announce (after a) (.done a))

theorem muted_bind (t : Action (I.noticing N) α) (f : α → Action (I.noticing N) β) :
    (t.bind f).muted = t.muted.bind fun a => (f a).muted := by
  induction t with
  | done a => rfl
  | call c k ih =>
    cases c with
    | inl n => exact ih ()
    | inr c => exact congrArg (Action.call c) (funext ih)

theorem muted_andThen {ε : Type} (t : Action (I.noticing N) (Except ε α))
    (f : α → Action (I.noticing N) (Except ε β)) :
    (t.andThen f).muted = t.muted.andThen fun a => (f a).muted := by
  unfold andThen
  rw [muted_bind]
  congr 1
  funext outcome
  cases outcome <;> rfl

theorem muted_announce (notices : List N) (t : Action (I.noticing N) α) :
    (announce notices t).muted = t.muted := by
  induction notices with
  | nil => rfl
  | cons n rest ih => exact ih

theorem muted_lifted (t : Action I α) : (t.lifted N).muted = t := by
  induction t with
  | done a => rfl
  | call c k ih => exact congrArg (Action.call c) (funext ih)

theorem bind_done (t : Action I α) : t.bind .done = t := by
  induction t with
  | done a => rfl
  | call c k ih => exact congrArg (Action.call c) (funext ih)

theorem muted_reported (before : List N) (after : α → List N) (t : Action I α) :
    (t.reported before after).muted = t := by
  unfold reported
  rw [muted_announce, muted_bind, muted_lifted]
  calc
    _ = t.bind .done := congrArg t.bind (funext fun a => muted_announce (after a) (.done a))
    _ = t := t.bind_done

namespace Progress

/-- What is left of an action with notices, and what is left of the muted one. -/
inductive Mutes : Progress (I.noticing N) α → Progress I α → Prop
  | finished (a : α) : Mutes (.finished a) (.finished a)
  | awaiting (due : Nat) (c : I.Call) (k : I.Reply c → Action (I.noticing N) α) :
      Mutes (.awaiting due (.inr c) k) (.awaiting due c fun r => (k r).muted)

theorem Mutes.value? {p : Progress (I.noticing N) α} {p' : Progress I α} (h : p.Mutes p') :
    p.value? = p'.value? := by
  cases h <;> rfl

theorem Mutes.mapM_value? {ps : List (Progress (I.noticing N) α)} {ps' : List (Progress I α)}
    (h : List.Forall₂ Mutes ps ps') : ps.mapM Progress.value? = ps'.mapM Progress.value? := by
  induction h with
  | nil => rfl
  | cons hfirst _ ih => rw [List.mapM_cons, List.mapM_cons, hfirst.value?, ih]

end Progress

/-- An action with notices comes to the same call as the muted one. -/
theorem advance_muted (env : Environment I σ) (now : Nat) (t : Action (I.noticing N) α) (s : σ)
    (log : List N) :
    (t.advance (env.noticing N) now (s, log)).1.Mutes (t.muted.advance env now s).1 ∧
      (t.advance (env.noticing N) now (s, log)).2.1 = (t.muted.advance env now s).2 := by
  induction t generalizing s log with
  | done a => exact ⟨.finished a, rfl⟩
  | call c k ih =>
    cases c with
    | inl n => exact ih () s (log ++ [n])
    | inr c =>
      rcases hissue : env.issue now c s with ⟨delay, s'⟩
      unfold muted advance
      rw [hissue, env.issue_noticing now c s log delay s' hissue]
      cases delay with
      | zero => exact ih _ _ log
      | succ delay => exact ⟨.awaiting _ c k, rfl⟩

namespace Progress

/-- The same call is answered on both sides, and with the same answer. -/
theorem Mutes.resume {p : Progress (I.noticing N) α} {p' : Progress I α} (h : p.Mutes p')
    (env : Environment I σ) (now : Nat) (s : σ) (log : List N) :
    (p.resume (env.noticing N) now (s, log)).1.Mutes (p'.resume env now s).1 ∧
      (p.resume (env.noticing N) now (s, log)).2.1 = (p'.resume env now s).2 := by
  cases h with
  | finished a => exact ⟨.finished a, rfl⟩
  | awaiting due c k =>
    by_cases hdue : due ≤ now
    · simp only [Progress.resume, hdue, if_true]
      exact advance_muted env now _ _ log
    · simp only [Progress.resume, hdue, if_false]
      exact ⟨.awaiting due c k, trivial⟩

/-- Members with notices go on one after another as the muted ones do. -/
theorem each_muted {π π' : Type}
    (noticing : π → σ × List N → Progress (I.noticing N) α × σ × List N)
    (step : π' → σ → Progress I α × σ) (related : π → π' → Prop)
    (hstep : ∀ p p', related p p' → ∀ s log,
      (noticing p (s, log)).1.Mutes (step p' s).1 ∧ (noticing p (s, log)).2.1 = (step p' s).2)
    (ps : List π) (ps' : List π') (h : List.Forall₂ related ps ps') (s : σ) (log : List N) :
    List.Forall₂ Mutes (each noticing ps (s, log)).1 (each step ps' s).1 ∧
      (each noticing ps (s, log)).2.1 = (each step ps' s).2 := by
  induction h generalizing s log with
  | nil => exact ⟨.nil, rfl⟩
  | @cons p p' _ _ hfirst _ ih =>
    obtain ⟨hmutes, hstate⟩ := hstep p p' hfirst s log
    unfold each
    dsimp only
    rcases hnoticed : noticing p (s, log) with ⟨q, s', log'⟩
    rw [hnoticed] at hmutes hstate
    obtain ⟨hrest, hlast⟩ := ih s' log'
    obtain rfl : s' = (step p' s).2 := hstate
    exact ⟨.cons hmutes hrest, hlast⟩

end Progress
end Action

namespace Task
variable {I : Interface} {N ε α β σ : Type}

/-- The same task without its notices. -/
def muted : Task (I.noticing N) ε α → Task I ε α
  | done a => .done a
  | call (.inl _) k => (k ()).muted
  | call (.inr c) k => .call c fun r => (k r).muted
  | group ms k => .group (ms.map Action.muted) fun rs => (k rs).muted

theorem muted_bind (t : Task (I.noticing N) ε α) (f : α → Task (I.noticing N) ε β) :
    (t.bind f).muted = t.muted.bind fun a => (f a).muted := by
  induction t with
  | done a => rfl
  | call c k ih =>
    cases c with
    | inl n => exact ih ()
    | inr c => exact congrArg (Task.call c) (funext ih)
  | group ms k ih => exact congrArg (Task.group _) (funext ih)

theorem muted_andThen (t : Task (I.noticing N) ε (Except ε α))
    (f : α → Task (I.noticing N) ε (Except ε β)) :
    (t.andThen f).muted = t.muted.andThen fun a => (f a).muted := by
  unfold andThen
  rw [muted_bind]
  congr 1
  funext outcome
  cases outcome <;> rfl

theorem muted_ofAction (t : Action (I.noticing N) α) :
    (ofAction t : Task (I.noticing N) ε α).muted = ofAction t.muted := by
  induction t with
  | done a => rfl
  | call c k ih =>
    cases c with
    | inl n => exact ih ()
    | inr c => exact congrArg (Task.call c) (funext ih)

namespace Progress

/-- What is left of a task with notices, and what is left of the muted one. -/
inductive Mutes : Progress (I.noticing N) ε α → Progress I ε α → Prop
  | finished (a : α) : Mutes (.finished a) (.finished a)
  | awaiting (due : Nat) (c : I.Call) (k : I.Reply c → Task (I.noticing N) ε α) :
      Mutes (.awaiting due (.inr c) k) (.awaiting due c fun r => (k r).muted)
  | joining (ps : List (Action.Progress (I.noticing N) (Except ε Unit)))
      (ps' : List (Action.Progress I (Except ε Unit)))
      (k : List (Except ε Unit) → Task (I.noticing N) ε α)
      (h : List.Forall₂ Action.Progress.Mutes ps ps') :
      Mutes (.joining ps k) (.joining ps' fun rs => (k rs).muted)

theorem Mutes.value? {p : Progress (I.noticing N) ε α} {p' : Progress I ε α} (h : p.Mutes p') :
    p.value? = p'.value? := by
  cases h <;> rfl

end Progress

/-- The same for tasks, whose groups are begun side by side. -/
theorem advance_muted (env : Environment I σ) (now : Nat) (t : Task (I.noticing N) ε α) (s : σ)
    (log : List N) :
    (t.advance (env.noticing N) now (s, log)).1.Mutes (t.muted.advance env now s).1 ∧
      (t.advance (env.noticing N) now (s, log)).2.1 = (t.muted.advance env now s).2 := by
  induction t generalizing s log with
  | done a => exact ⟨.finished a, rfl⟩
  | call c k ih =>
    cases c with
    | inl n => exact ih () s (log ++ [n])
    | inr c =>
      rcases hissue : env.issue now c s with ⟨delay, s'⟩
      unfold muted advance
      rw [hissue, env.issue_noticing now c s log delay s' hissue]
      cases delay with
      | zero => exact ih _ _ log
      | succ delay => exact ⟨.awaiting _ c k, rfl⟩
  | group ms k ih =>
    obtain ⟨hmutes, hstate⟩ := Action.Progress.each_muted
      (fun m s => m.advance (env.noticing N) now s) (fun m s => m.advance env now s)
      (fun m m' => m' = m.muted) (fun m _ hm s log => hm ▸ m.advance_muted env now s log) ms
      (ms.map Action.muted)
      (List.forall₂_map_right_iff.mpr (List.forall₂_same.mpr fun _ _ => rfl)) s log
    unfold muted advance
    dsimp only
    rw [Action.Progress.Mutes.mapM_value? hmutes]
    rcases hgroup : Action.Progress.each (fun m s => m.advance (env.noticing N) now s) ms (s, log)
      with ⟨qs, s', log'⟩
    rw [hgroup] at hmutes hstate ⊢
    obtain rfl : s' = _ := hstate
    split
    · exact ih _ _ log'
    · exact ⟨.joining _ _ k hmutes, rfl⟩

/-- What is due goes on side by side, in groups member by member. -/
theorem Progress.Mutes.resume {p : Progress (I.noticing N) ε α} {p' : Progress I ε α}
    (h : p.Mutes p') (env : Environment I σ) (now : Nat) (s : σ) (log : List N) :
    (p.resume (env.noticing N) now (s, log)).1.Mutes (p'.resume env now s).1 ∧
      (p.resume (env.noticing N) now (s, log)).2.1 = (p'.resume env now s).2 := by
  cases h with
  | finished a => exact ⟨.finished a, rfl⟩
  | awaiting due c k =>
    by_cases hdue : due ≤ now
    · simp only [Progress.resume, hdue, if_true]
      exact advance_muted env now _ _ log
    · simp only [Progress.resume, hdue, if_false]
      exact ⟨.awaiting due c k, trivial⟩
  | joining ps ps' k h =>
    obtain ⟨hmutes, hstate⟩ := Action.Progress.each_muted
      (fun p s => p.resume (env.noticing N) now s) (fun p s => p.resume env now s)
      Action.Progress.Mutes (fun p p' hp s log => hp.resume env now s log) ps ps' h s log
    simp only [Progress.resume]
    rw [Action.Progress.Mutes.mapM_value? hmutes]
    rcases hgroup : Action.Progress.each (fun p s => p.resume (env.noticing N) now s) ps (s, log)
      with ⟨qs, s', log'⟩
    rw [hgroup] at hmutes hstate ⊢
    obtain rfl : s' = _ := hstate
    split
    · exact advance_muted env now _ _ log'
    · exact ⟨.joining _ _ k hmutes, rfl⟩

end Task
end Reconciliation
