import Reconciliation.Task.Clocked

/-!
Invariants of work on a clock. A call may change the state when it is issued and again when it is
answered, and other work goes on in between. So work keeps an invariant if each of its calls does
so at any time and in any state with the invariant, and what is known of an answer may not depend
on the state that it left behind.
-/
namespace Reconciliation

/-- The call keeps the invariant, and its answer has the property. -/
structure Environment.Keeps {I : Interface} {σ : Type} (env : Environment I σ) (inv : σ → Prop)
    (c : I.Call) (next : I.Reply c → Prop) : Prop where
  issue : ∀ now s, inv s → inv (env.issue now c s).2
  answer : ∀ now s, inv s → inv (env.answer now c s).2 ∧ next (env.answer now c s).1

/-- The property holds of the value unless there is none. -/
def IfOk {ε α : Type} (p : α → Prop) : Except ε α → Prop
  | .ok a => p a
  | .error _ => True

theorem ifOk_true {ε α : Type} (x : Except ε α) : IfOk (fun _ => True) x := by
  cases x <;> trivial

namespace Action
variable {I : Interface} {α β σ : Type}

/-- Every call keeps the invariant, and the value has the property. -/
def Ensures (env : Environment I σ) (inv : σ → Prop) (post : α → Prop) : Action I α → Prop
  | done a => post a
  | call c k => env.Keeps inv c fun r => (k r).Ensures env inv post

theorem Ensures.weaken {env : Environment I σ} {inv : σ → Prop} {post weaker : α → Prop}
    {t : Action I α} (h : t.Ensures env inv post) (hweaker : ∀ a, post a → weaker a) :
    t.Ensures env inv weaker := by
  induction t with
  | done a => exact hweaker a h
  | call c k ih =>
    refine ⟨h.issue, fun now s hs => ?_⟩
    obtain ⟨hkept, hnext⟩ := h.answer now s hs
    exact ⟨hkept, ih _ hnext⟩

/-- In an environment all of whose calls keep the invariant, every action does. -/
theorem ensures_of_keeps {env : Environment I σ} {inv : σ → Prop}
    (henv : ∀ c, env.Keeps inv c fun _ => True) (t : Action I α) :
    t.Ensures env inv fun _ => True := by
  induction t with
  | done a => trivial
  | call c k ih => exact ⟨(henv c).issue, fun now s hs => ⟨((henv c).answer now s hs).1, ih _⟩⟩

theorem Ensures.bind {env : Environment I σ} {inv : σ → Prop} {mid : α → Prop} {post : β → Prop}
    {t : Action I α} {f : α → Action I β} (ht : t.Ensures env inv mid)
    (hf : ∀ a, mid a → (f a).Ensures env inv post) : (t.bind f).Ensures env inv post := by
  induction t with
  | done a => exact hf a ht
  | call c k ih =>
    refine ⟨ht.issue, fun now s hs => ?_⟩
    obtain ⟨hkept, hnext⟩ := ht.answer now s hs
    exact ⟨hkept, ih _ hnext⟩

theorem Ensures.andThen {ε : Type} {env : Environment I σ} {inv : σ → Prop} {mid : α → Prop}
    {post : β → Prop} {t : Action I (Except ε α)} {f : α → Action I (Except ε β)}
    (ht : t.Ensures env inv (IfOk mid)) (hf : ∀ a, mid a → (f a).Ensures env inv (IfOk post)) :
    (t.andThen f).Ensures env inv (IfOk post) := by
  refine ht.bind fun outcome houtcome => ?_
  cases outcome with
  | ok a => exact hf a houtcome
  | error e => trivial

namespace Progress

/-- Every call still to be made or answered keeps the invariant. -/
def Ensures (env : Environment I σ) (inv : σ → Prop) (post : α → Prop) : Progress I α → Prop
  | finished a => post a
  | awaiting _ c k => (call c k).Ensures env inv post

end Progress

/-- The invariant holds where the action stops, and what is left of it keeps the invariant too. -/
theorem Ensures.advance {env : Environment I σ} {inv : σ → Prop} {post : α → Prop}
    {t : Action I α} (h : t.Ensures env inv post) (now : Nat) (s : σ) (hs : inv s) :
    (t.advance env now s).1.Ensures env inv post ∧ inv (t.advance env now s).2 := by
  induction t generalizing s with
  | done a => exact ⟨h, hs⟩
  | call c k ih =>
    have hissued := h.issue now s hs
    unfold Action.advance
    split
    · rename_i s' heq
      rw [heq] at hissued
      obtain ⟨hkept, hnext⟩ := h.answer now s' hissued
      exact ih _ hnext _ hkept
    · rename_i delay s' _ heq
      rw [heq] at hissued
      exact ⟨h, hissued⟩

namespace Progress

theorem Ensures.resume {env : Environment I σ} {inv : σ → Prop} {post : α → Prop}
    {p : Progress I α} (h : p.Ensures env inv post) (now : Nat) (s : σ) (hs : inv s) :
    (p.resume env now s).1.Ensures env inv post ∧ inv (p.resume env now s).2 := by
  cases p with
  | finished a => exact ⟨h, hs⟩
  | awaiting due c k =>
    simp only [Progress.resume]
    split
    · obtain ⟨hkept, hnext⟩ := h.answer now s hs
      exact hnext.advance now _ hkept
    · exact ⟨h, hs⟩

/-- A step of each member in turn, each in the state that the one before left. -/
theorem each_ensures {π : Type} {env : Environment I σ} {inv : σ → Prop} {post : α → Prop}
    (step : π → σ → Progress I α × σ) (members : List π)
    (hstep : ∀ p ∈ members, ∀ s, inv s → (step p s).1.Ensures env inv post ∧ inv (step p s).2)
    (s : σ) (hs : inv s) :
    (∀ p ∈ (each step members s).1, p.Ensures env inv post) ∧ inv (each step members s).2 := by
  induction members generalizing s with
  | nil => exact ⟨fun _ h => absurd h List.not_mem_nil, hs⟩
  | cons p rest ih =>
    obtain ⟨hfirst, hkept⟩ := hstep p List.mem_cons_self s hs
    obtain ⟨hrest, hlast⟩ := ih (fun q hq => hstep q (List.mem_cons_of_mem p hq)) _ hkept
    exact ⟨List.forall_mem_cons.mpr ⟨hfirst, hrest⟩, hlast⟩

end Progress
end Action

namespace Task
variable {I : Interface} {ε α β σ : Type}

/-- Every call keeps the invariant, those of the members of groups too, and the value has the
property. -/
def Ensures (env : Environment I σ) (inv : σ → Prop) (post : α → Prop) : Task I ε α → Prop
  | done a => post a
  | call c k => env.Keeps inv c fun r => (k r).Ensures env inv post
  | group ms k =>
    (∀ m ∈ ms, m.Ensures env inv fun _ => True) ∧ ∀ rs, (k rs).Ensures env inv post

theorem Ensures.weaken {env : Environment I σ} {inv : σ → Prop} {post weaker : α → Prop}
    {t : Task I ε α} (h : t.Ensures env inv post) (hweaker : ∀ a, post a → weaker a) :
    t.Ensures env inv weaker := by
  induction t with
  | done a => exact hweaker a h
  | call c k ih =>
    refine ⟨h.issue, fun now s hs => ?_⟩
    obtain ⟨hkept, hnext⟩ := h.answer now s hs
    exact ⟨hkept, ih _ hnext⟩
  | group ms k ih => exact ⟨h.1, fun rs => ih rs (h.2 rs)⟩

theorem ensures_of_keeps {env : Environment I σ} {inv : σ → Prop}
    (henv : ∀ c, env.Keeps inv c fun _ => True) (t : Task I ε α) :
    t.Ensures env inv fun _ => True := by
  induction t with
  | done a => trivial
  | call c k ih => exact ⟨(henv c).issue, fun now s hs => ⟨((henv c).answer now s hs).1, ih _⟩⟩
  | group ms k ih => exact ⟨fun m _ => m.ensures_of_keeps henv, ih⟩

theorem Ensures.bind {env : Environment I σ} {inv : σ → Prop} {mid : α → Prop} {post : β → Prop}
    {t : Task I ε α} {f : α → Task I ε β} (ht : t.Ensures env inv mid)
    (hf : ∀ a, mid a → (f a).Ensures env inv post) : (t.bind f).Ensures env inv post := by
  induction t with
  | done a => exact hf a ht
  | call c k ih =>
    refine ⟨ht.issue, fun now s hs => ?_⟩
    obtain ⟨hkept, hnext⟩ := ht.answer now s hs
    exact ⟨hkept, ih _ hnext⟩
  | group ms k ih => exact ⟨ht.1, fun rs => ih rs (ht.2 rs)⟩

theorem Ensures.andThen {env : Environment I σ} {inv : σ → Prop} {mid : α → Prop}
    {post : β → Prop} {t : Task I ε (Except ε α)} {f : α → Task I ε (Except ε β)}
    (ht : t.Ensures env inv (IfOk mid)) (hf : ∀ a, mid a → (f a).Ensures env inv (IfOk post)) :
    (t.andThen f).Ensures env inv (IfOk post) := by
  refine ht.bind fun outcome houtcome => ?_
  cases outcome with
  | ok a => exact hf a houtcome
  | error e => trivial

theorem ensures_ofAction {env : Environment I σ} {inv : σ → Prop} {post : α → Prop}
    {t : Action I α} (h : t.Ensures env inv post) :
    (ofAction t : Task I ε α).Ensures env inv post := by
  induction t with
  | done a => exact h
  | call c k ih =>
    refine ⟨h.issue, fun now s hs => ?_⟩
    obtain ⟨hkept, hnext⟩ := h.answer now s hs
    exact ⟨hkept, ih _ hnext⟩

namespace Progress

/-- Every call still to be made or answered keeps the invariant. -/
def Ensures (env : Environment I σ) (inv : σ → Prop) (post : α → Prop) : Progress I ε α → Prop
  | finished a => post a
  | awaiting _ c k => (call c k : Task I ε α).Ensures env inv post
  | joining ps k =>
    (∀ p ∈ ps, p.Ensures env inv fun _ => True) ∧ ∀ rs, (k rs).Ensures env inv post

theorem Ensures.value {env : Environment I σ} {inv : σ → Prop} {post : α → Prop}
    {p : Progress I ε α} (h : p.Ensures env inv post) {a : α} (ha : p.value? = some a) :
    post a := by
  cases p with
  | finished b =>
    rw [← Option.some.inj ha]
    exact h
  | awaiting due c k => cases ha
  | joining ps k => cases ha

end Progress

/-- The same for tasks, by induction; a group hands the state from one member to the next. -/
theorem Ensures.advance {env : Environment I σ} {inv : σ → Prop} {post : α → Prop}
    {t : Task I ε α} (h : t.Ensures env inv post) (now : Nat) (s : σ) (hs : inv s) :
    (t.advance env now s).1.Ensures env inv post ∧ inv (t.advance env now s).2 := by
  induction t generalizing s with
  | done a => exact ⟨h, hs⟩
  | call c k ih =>
    have hissued := h.issue now s hs
    unfold Task.advance
    split
    · rename_i s' heq
      rw [heq] at hissued
      obtain ⟨hkept, hnext⟩ := h.answer now s' hissued
      exact ih _ hnext _ hkept
    · rename_i delay s' _ heq
      rw [heq] at hissued
      exact ⟨h, hissued⟩
  | group ms k ih =>
    obtain ⟨hms, hk⟩ := h
    obtain ⟨hmembers, hkept⟩ := Action.Progress.each_ensures (fun m s => m.advance env now s) ms
      (fun m hm s hs => (hms m hm).advance now s hs) s hs
    unfold Task.advance
    dsimp only
    split
    · exact ih _ (hk _) _ hkept
    · exact ⟨⟨hmembers, hk⟩, hkept⟩

/-- Work under way keeps the invariant at each time at which it goes on. -/
theorem Progress.Ensures.resume {env : Environment I σ} {inv : σ → Prop} {post : α → Prop}
    {p : Progress I ε α} (h : p.Ensures env inv post) (now : Nat) (s : σ) (hs : inv s) :
    (p.resume env now s).1.Ensures env inv post ∧ inv (p.resume env now s).2 := by
  cases p with
  | finished a => exact ⟨h, hs⟩
  | awaiting due c k =>
    simp only [Progress.resume]
    split
    · obtain ⟨hkept, hnext⟩ := h.answer now s hs
      exact hnext.advance now _ hkept
    · exact ⟨h, hs⟩
  | joining ps k =>
    obtain ⟨hps, hk⟩ := h
    obtain ⟨hmembers, hkept⟩ := Action.Progress.each_ensures (fun p s => p.resume env now s) ps
      (fun p hp s hs => (hps p hp).resume now s hs) s hs
    simp only [Progress.resume]
    split
    · exact (hk _).advance now _ hkept
    · exact ⟨⟨hmembers, hk⟩, hkept⟩

end Task
end Reconciliation
