import Reconciliation.Task.Basic

/-!
Histories of actions. An action has made calls and has got answers to them; what is left of it
follows. If every call is licensed by what went before it, whatever the answers are, then the
history of the action shows what its next call needs. Only the answers are restricted, to those
that an environment can give; how long it takes to give them does not matter here.
-/
namespace Reconciliation

/-- A call with its answer. -/
structure Exchange (I : Interface) where
  call : I.Call
  reply : I.Reply call

namespace Action
variable {I : Interface} {α : Type}

/-- What is left of an action after exchanges whose answers are possible ones. -/
inductive Leads (possible : (c : I.Call) → I.Reply c → Prop) (t : Action I α) :
    List (Exchange I) → Action I α → Prop
  | start : Leads possible t [] t
  | answer (past : List (Exchange I)) (c : I.Call) (k : I.Reply c → Action I α) (r : I.Reply c)
      (h : Leads possible t past (.call c k)) (hr : possible c r) :
      Leads possible t (past ++ [⟨c, r⟩]) (k r)

/-- Every call from now on is licensed by what went before it, and the value fits in with all. -/
def Obeys (possible : (c : I.Call) → I.Reply c → Prop)
    (licence : List (Exchange I) → I.Call → Prop) (fits : List (Exchange I) → α → Prop) :
    List (Exchange I) → Action I α → Prop
  | past, done a => fits past a
  | past, call c k =>
    licence past c ∧ ∀ r, possible c r → Obeys possible licence fits (past ++ [⟨c, r⟩]) (k r)

theorem Leads.obeys {possible : (c : I.Call) → I.Reply c → Prop}
    {licence : List (Exchange I) → I.Call → Prop} {fits : List (Exchange I) → α → Prop}
    {t rest : Action I α} {past : List (Exchange I)} (h : t.Leads possible past rest)
    (ht : Obeys possible licence fits [] t) : Obeys possible licence fits past rest := by
  induction h with
  | start => exact ht
  | answer past c k r _ hr ih => exact ih.2 r hr

section
variable {possible : (c : I.Call) → I.Reply c → Prop} {t rest : Action I α}
  {past : List (Exchange I)}

theorem Leads.of_nil (h : t.Leads possible [] rest) : rest = t := by
  generalize hpast : ([] : List (Exchange I)) = past at h
  cases h with
  | start => rfl
  | answer past c k r _ _ => exact absurd hpast (List.concat_ne_nil _ past).symm

theorem Leads.of_done {a : α} (h : (done a).Leads possible past rest) :
    past = [] ∧ rest = done a := by
  induction h with
  | start => exact ⟨rfl, rfl⟩
  | answer past c k r _ _ ih => exact absurd ih.2 nofun

/-- A history goes through each of its exchanges, and each was a possible one. -/
theorem Leads.split (h : t.Leads possible past rest) (before after : List (Exchange I))
    (x : Exchange I) (hpast : past = before ++ x :: after) :
    ∃ k, t.Leads possible before (.call x.call k) ∧ possible x.call x.reply ∧
      (k x.reply).Leads possible after rest := by
  induction h generalizing after with
  | start =>
    exact absurd hpast.symm
      (List.append_ne_nil_of_right_ne_nil before (List.cons_ne_nil x after))
  | answer past c k r h hr ih =>
    rcases List.eq_nil_or_concat after with rfl | ⟨after, last, rfl⟩
    · obtain ⟨rfl, hlast⟩ := List.append_inj' hpast rfl
      obtain rfl := List.head_eq_of_cons_eq hlast
      exact ⟨k, h, hr, .start⟩
    · rw [List.concat_eq_append] at hpast ⊢
      rw [← List.cons_append, ← List.append_assoc] at hpast
      obtain ⟨hbefore, hlast⟩ := List.append_inj' hpast rfl
      obtain rfl := List.head_eq_of_cons_eq hlast
      obtain ⟨k', hfirst, hx, hrest⟩ := ih after hbefore
      exact ⟨k', hfirst, hx, hrest.answer after c k r hr⟩

end

end Action
end Reconciliation
