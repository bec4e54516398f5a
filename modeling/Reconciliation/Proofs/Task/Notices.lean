import Reconciliation.Task.Clocked

/-!
Work that gives notice of what it does. A notice takes no time and leaves the environment as it
was, so work with notices goes on as it does without them. Whether a notice may be given depends
on those before it.
-/
namespace Reconciliation

section
variable {I : Interface} {N : Type}

/-- The calls of an interface, and notices among them. -/
def Interface.noticing (I : Interface) (N : Type) : Interface where
  Call := N ⊕ I.Call
  Reply
    | .inl _ => Unit
    | .inr c => I.Reply c

/-- The same environment, which also collects the notices in order. -/
def Environment.noticing {σ : Type} (env : Environment I σ) (N : Type) :
    Environment (I.noticing N) (σ × List N) where
  issue now
    | .inl _, s => (0, s)
    | .inr c, s => ((env.issue now c s.1).1, (env.issue now c s.1).2, s.2)
  answer now
    | .inl n, s => ((), s.1, s.2 ++ [n])
    | .inr c, s => ((env.answer now c s.1).1, (env.answer now c s.1).2, s.2)

theorem Environment.issue_noticing {σ : Type} (env : Environment I σ) (now : Nat) (c : I.Call)
    (s : σ) (log : List N) (delay : Nat) (s' : σ) (h : env.issue now c s = (delay, s')) :
    (env.noticing N).issue now (.inr c) (s, log) = (delay, s', log) := by
  change ((env.issue now c s).1, (env.issue now c s).2, log) = _
  rw [h]

end

/-- Each entry is warranted by those before it. -/
def Warranted {N : Type} (licence : List N → N → Prop) : List N → List N → Prop
  | _, [] => True
  | past, n :: rest => licence past n ∧ Warranted licence (past ++ [n]) rest

namespace Warranted
variable {N : Type} {licence : List N → N → Prop}

theorem append (past news more : List N) (h : Warranted licence past news)
    (hmore : Warranted licence (past ++ news) more) : Warranted licence past (news ++ more) := by
  induction news generalizing past with
  | nil =>
    rw [List.append_nil] at hmore
    exact hmore
  | cons n rest ih =>
    refine ⟨h.1, ih (past ++ [n]) h.2 ?_⟩
    rw [List.append_assoc, List.singleton_append]
    exact hmore

theorem of_append {past news more : List N} (h : Warranted licence past (news ++ more)) :
    Warranted licence past news := by
  induction news generalizing past with
  | nil => trivial
  | cons n rest ih => exact ⟨h.1, ih h.2⟩

theorem at_split (past before : List N) (n : N) (after : List N)
    (h : Warranted licence past (before ++ n :: after)) : licence (past ++ before) n := by
  induction before generalizing past with
  | nil =>
    rw [List.append_nil]
    exact h.1
  | cons m rest ih =>
    have hrest := ih (past ++ [m]) h.2
    rwa [List.append_assoc, List.singleton_append] at hrest

end Warranted

namespace Action
variable {I : Interface} {N α β σ : Type}

/-- The same action among notices. -/
def lifted (N : Type) : Action I α → Action (I.noticing N) α
  | done a => .done a
  | call c k => .call (.inr c) fun r => (k r).lifted N

def Progress.lifted (N : Type) : Progress I α → Progress (I.noticing N) α
  | finished a => .finished a
  | awaiting due c k => .awaiting due (.inr c) fun r => (k r).lifted N

/-- Work that gives no notice leaves the log as it is. -/
theorem advance_lifted (env : Environment I σ) (now : Nat) (t : Action I α) (s : σ)
    (log : List N) :
    (t.lifted N).advance (env.noticing N) now (s, log) =
      ((t.advance env now s).1.lifted N, (t.advance env now s).2, log) := by
  induction t generalizing s with
  | done a => rfl
  | call c k ih =>
    unfold lifted advance
    rcases hissue : env.issue now c s with ⟨delay, s'⟩
    rw [env.issue_noticing now c s log delay s' hissue]
    cases delay with
    | zero => exact ih _ _
    | succ delay => rfl

namespace Progress

theorem resume_lifted (env : Environment I σ) (now : Nat) (p : Progress I α) (s : σ)
    (log : List N) :
    (p.lifted N).resume (env.noticing N) now (s, log) =
      ((p.resume env now s).1.lifted N, (p.resume env now s).2, log) := by
  cases p with
  | finished a => rfl
  | awaiting due c k =>
    by_cases hdue : due ≤ now
    · simp only [lifted, resume, hdue, if_true]
      exact advance_lifted env now _ _ log
    · simp only [lifted, resume, hdue, if_false]

/-- Members that give no notice go on one after another as they do without any. -/
theorem each_lifted {π π' : Type} (lift : π → π')
    (noticing : π' → σ × List N → Progress (I.noticing N) α × σ × List N)
    (step : π → σ → Progress I α × σ)
    (hstep : ∀ p s log, noticing (lift p) (s, log) = ((step p s).1.lifted N, (step p s).2, log))
    (members : List π) (s : σ) (log : List N) :
    each noticing (members.map lift) (s, log) =
      ((each step members s).1.map (Progress.lifted N), (each step members s).2, log) := by
  induction members generalizing s with
  | nil => rfl
  | cons p rest ih =>
    rw [List.map_cons]
    unfold each
    dsimp only
    rw [hstep p s log]
    dsimp only
    rw [ih]
    rfl

theorem value?_lifted (p : Progress I α) : (p.lifted N).value? = p.value? := by
  cases p <;> rfl

theorem mapM_value?_lifted (ps : List (Progress I α)) :
    (ps.map (Progress.lifted N)).mapM value? = ps.mapM value? := by
  induction ps with
  | nil => rfl
  | cons p rest ih => rw [List.map_cons, List.mapM_cons, List.mapM_cons, value?_lifted, ih]

end Progress
end Action

namespace Task
variable {I : Interface} {N ε α β σ : Type}

/-- The same task among notices. -/
def lifted (N : Type) : Task I ε α → Task (I.noticing N) ε α
  | done a => .done a
  | call c k => .call (.inr c) fun r => (k r).lifted N
  | group ms k => .group (ms.map (Action.lifted N)) fun rs => (k rs).lifted N

section
variable (licence : List N → N → Prop) (fits : List N → α → Prop)

/-- Given the notices so far, a task gives those that it has a licence for, and for the rest it
does what another one does, with a result that fits the notices. -/
inductive Narrates : List N → Task (I.noticing N) ε α → Task I ε α → Prop
  | done (past : List N) (a : α) (h : fits past a) : Narrates past (.done a) (.done a)
  | notice (past : List N) (n : N) (k : Unit → Task (I.noticing N) ε α) (t : Task I ε α)
      (hn : licence past n) (h : Narrates (past ++ [n]) (k ()) t) :
      Narrates past (.call (.inl n) k) t
  | call (past : List N) (c : I.Call) (k : I.Reply c → Task (I.noticing N) ε α)
      (k' : I.Reply c → Task I ε α) (h : ∀ r, Narrates past (k r) (k' r)) :
      Narrates past (.call (.inr c) k) (.call c k')
  | group (past : List N) (ms : List (Action I (Except ε Unit)))
      (k : List (Except ε Unit) → Task (I.noticing N) ε α)
      (k' : List (Except ε Unit) → Task I ε α) (h : ∀ rs, Narrates past (k rs) (k' rs)) :
      Narrates past (.group (ms.map (Action.lifted N)) k) (.group ms k')

/-- What is left of a task with notices narrates what is left of the other one. -/
inductive Progress.Narrates (past : List N) : Progress (I.noticing N) ε α → Progress I ε α → Prop
  | finished (a : α) (h : fits past a) : Narrates past (.finished a) (.finished a)
  | awaiting (due : Nat) (c : I.Call) (k : I.Reply c → Task (I.noticing N) ε α)
      (k' : I.Reply c → Task I ε α) (h : ∀ r, (k r).Narrates licence fits past (k' r)) :
      Narrates past (.awaiting due (.inr c) k) (.awaiting due c k')
  | joining (ps : List (Action.Progress I (Except ε Unit)))
      (k : List (Except ε Unit) → Task (I.noticing N) ε α)
      (k' : List (Except ε Unit) → Task I ε α)
      (h : ∀ rs, (k rs).Narrates licence fits past (k' rs)) :
      Narrates past (.joining (ps.map (Action.Progress.lifted N)) k) (.joining ps k')

end

section
variable {licence : List N → N → Prop} {fits : List N → α → Prop}

theorem Narrates.bind {fits' : List N → β → Prop} {past : List N}
    {t : Task (I.noticing N) ε α} {t' : Task I ε α} (h : t.Narrates licence fits past t')
    (f : α → Task (I.noticing N) ε β) (f' : α → Task I ε β)
    (hf : ∀ past a, fits past a → (f a).Narrates licence fits' past (f' a)) :
    (t.bind f).Narrates licence fits' past (t'.bind f') := by
  induction h with
  | done past a h => exact hf past a h
  | notice past n k t hn _ ih => exact .notice past n _ _ hn ih
  | call past c k k' _ ih => exact .call past c _ _ ih
  | group past ms k k' _ ih => exact .group past ms _ _ ih

theorem Narrates.mono {licence' : List N → N → Prop} {past : List N}
    {t : Task (I.noticing N) ε α} {t' : Task I ε α} (h : t.Narrates licence fits past t')
    (hlicence : ∀ past n, licence past n → licence' past n) : t.Narrates licence' fits past t' := by
  induction h with
  | done past a h => exact .done past a h
  | notice past n k t hn _ ih => exact .notice past n k t (hlicence past n hn) ih
  | call past c k k' _ ih => exact .call past c k k' ih
  | group past ms k k' _ ih => exact .group past ms k k' ih

/-- A task that gives no notice narrates itself. -/
theorem narrates_lifted (past : List N) (t : Task I ε α) :
    (t.lifted N).Narrates licence (fun now _ => now = past) past t := by
  induction t with
  | done a => exact .done past a rfl
  | call c k ih => exact .call past c _ k ih
  | group ms k ih => exact .group past ms _ k ih

/-- After an action that gives no notice, a task narrates what follows. -/
theorem narrates_ofAction_bind {γ : Type} {past : List N} (t : Action I γ)
    (g : γ → Action (I.noticing N) β) (f : β → Task (I.noticing N) ε α) (f' : γ → Task I ε α)
    (h : ∀ a, ((ofAction (g a)).bind f).Narrates licence fits past (f' a)) :
    ((ofAction ((t.lifted N).bind g)).bind f).Narrates licence fits past
      ((ofAction t).bind f') := by
  induction t with
  | done a => exact h a
  | call c k ih => exact .call past c _ _ ih

/-- What one advance or resumption does with notices, and what it does without them. -/
structure Progress.Tells (licence : List N → N → Prop) (fits : List N → α → Prop)
    (past log : List N) (x : Progress (I.noticing N) ε α × σ × List N)
    (y : Progress I ε α × σ) (news : List N) : Prop where
  state : x.2 = (y.2, log ++ news)
  warranted : Warranted licence past news
  narrates : x.1.Narrates licence fits (past ++ news) y.1

theorem Progress.Tells.silent {past log : List N} {x : Progress (I.noticing N) ε α × σ × List N}
    {y : Progress I ε α × σ} (hstate : x.2 = (y.2, log))
    (h : x.1.Narrates licence fits past y.1) : Tells licence fits past log x y [] := by
  refine ⟨?_, trivial, ?_⟩
  · rw [hstate, List.append_nil]
  · rw [List.append_nil]
    exact h

theorem Progress.Tells.eq_of_nil {past : List N} {x : Progress (I.noticing N) ε α × σ × List N}
    {y : Progress I ε α × σ} {news : List N} (h : Tells licence fits past [] x y news) :
    x = (x.1, y.2, news) := Prod.ext rfl h.state

/-- What is noticed on the way is licensed, notice by notice, by what came before it. -/
theorem Narrates.advance {past : List N} {t : Task (I.noticing N) ε α} {t' : Task I ε α}
    (h : t.Narrates licence fits past t') (env : Environment I σ) (now : Nat) (s : σ)
    (log : List N) :
    ∃ news, Progress.Tells licence fits past log (t.advance (env.noticing N) now (s, log))
      (t'.advance env now s) news := by
  induction h generalizing s log with
  | done past a h => exact ⟨[], .silent rfl (.finished a h)⟩
  | notice past n k t hn _ ih =>
    obtain ⟨news, htold⟩ := ih s (log ++ [n])
    refine ⟨n :: news, ?_, ⟨hn, htold.warranted⟩, ?_⟩
    · have hstate := htold.state
      rw [List.append_assoc, List.singleton_append] at hstate
      exact hstate
    · have hnarrates := htold.narrates
      rw [List.append_assoc, List.singleton_append] at hnarrates
      exact hnarrates
  | call past c k k' h ih =>
    rcases hissue : env.issue now c s with ⟨delay, s'⟩
    have hissue' := env.issue_noticing now c s log delay s' hissue
    cases delay with
    | zero =>
      obtain ⟨news, htold⟩ := ih (env.answer now c s').1 (env.answer now c s').2 log
      refine ⟨news, ?_⟩
      unfold Task.advance
      rw [hissue, hissue']
      exact htold
    | succ delay =>
      refine ⟨[], ?_⟩
      unfold Task.advance
      rw [hissue, hissue']
      exact .silent rfl (.awaiting _ c k k' h)
  | group past ms k k' h ih =>
    have hmembers := Action.Progress.each_lifted (Action.lifted N)
      (fun m s => m.advance (env.noticing N) now s) (fun m s => m.advance env now s)
      (fun m s log => m.advance_lifted env now s log) ms s log
    unfold Task.advance
    rw [hmembers]
    dsimp only
    rw [Action.Progress.mapM_value?_lifted]
    cases hvalues : (Action.Progress.each (fun m s => m.advance env now s) ms s).1.mapM
        Action.Progress.value? with
    | some rs => exact ih rs _ log
    | none => exact ⟨[], .silent rfl (.joining _ k k' h)⟩

/-- The notices that work gives when it goes on follow on those before. -/
theorem Progress.Narrates.resume {past : List N} {p : Progress (I.noticing N) ε α}
    {p' : Progress I ε α} (h : p.Narrates licence fits past p') (env : Environment I σ)
    (now : Nat) (s : σ) (log : List N) :
    ∃ news, Progress.Tells licence fits past log (p.resume (env.noticing N) now (s, log))
      (p'.resume env now s) news := by
  cases h with
  | finished a h => exact ⟨[], .silent rfl (.finished a h)⟩
  | awaiting due c k k' h =>
    by_cases hdue : due ≤ now
    · simp only [Progress.resume, hdue, if_true]
      exact (h (env.answer now c s).1).advance env now (env.answer now c s).2 log
    · simp only [Progress.resume, hdue, if_false]
      exact ⟨[], .silent rfl (.awaiting due c k k' h)⟩
  | joining ps k k' h =>
    have hmembers := Action.Progress.each_lifted (Action.Progress.lifted N)
      (fun p s => p.resume (env.noticing N) now s) (fun p s => p.resume env now s)
      (fun p s log => p.resume_lifted env now s log) ps s log
    simp only [Progress.resume]
    rw [hmembers]
    dsimp only
    rw [Action.Progress.mapM_value?_lifted]
    cases hvalues : (Action.Progress.each (fun p s => p.resume env now s) ps s).1.mapM
        Action.Progress.value? with
    | some rs => exact (h rs).advance env now _ log
    | none => exact ⟨[], .silent rfl (.joining _ k k' h)⟩

theorem Progress.Narrates.value? {past : List N} {p : Progress (I.noticing N) ε α}
    {p' : Progress I ε α} (h : p.Narrates licence fits past p') : p'.value? = p.value? := by
  cases h <;> rfl

theorem Progress.Narrates.result_fits {past : List N} {a : α} {p' : Progress I ε α}
    (h : (Progress.finished a : Progress (I.noticing N) ε α).Narrates licence fits past p') :
    fits past a := by
  cases h with
  | finished _ h => exact h

end
end Task
end Reconciliation
