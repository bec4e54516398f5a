import Reconciliation.Proofs.Task.Halting
import Reconciliation.Proofs.Task.Muting
import Reconciliation.Proofs.Task.Returns
import Mathlib.Data.List.Perm.Basic

/-!
What is heard of work with notices. Whatever is answered, a task gives a list of notices and comes
to a value; the members of a group may give theirs in any interleaving. On a clock, whenever a task
is over, exactly such a list has been collected, whatever else was done in between.
-/
namespace Reconciliation

namespace Action
variable {I : Interface} {N α β σ : Type}

/-- With some answers, the action gives these notices and has this value. -/
inductive Gives : Action (I.noticing N) α → List N → α → Prop
  | done (a : α) : Gives (.done a) [] a
  | notice (n : N) (k : Unit → Action (I.noticing N) α) (log : List N) (a : α)
      (h : Gives (k ()) log a) : Gives (.call (.inl n) k) (n :: log) a
  | call (c : I.Call) (k : I.Reply c → Action (I.noticing N) α) (r : I.Reply c) (log : List N)
      (a : α) (h : Gives (k r) log a) : Gives (.call (.inr c) k) log a

theorem gives_bind_iff (t : Action (I.noticing N) α) (f : α → Action (I.noticing N) β)
    (log : List N) (b : β) :
    (t.bind f).Gives log b ↔ ∃ first a rest, log = first ++ rest ∧ t.Gives first a ∧
      (f a).Gives rest b := by
  constructor
  · intro h
    induction t generalizing log with
    | done a => exact ⟨[], a, log, rfl, .done a, h⟩
    | call c k ih =>
      cases h with
      | notice n _ log _ h =>
        obtain ⟨first, a, rest, rfl, hfirst, hrest⟩ := ih () log h
        exact ⟨n :: first, a, rest, rfl, .notice n k first a hfirst, hrest⟩
      | call c _ r _ _ h =>
        obtain ⟨first, a, rest, rfl, hfirst, hrest⟩ := ih r log h
        exact ⟨first, a, rest, rfl, .call c k r first a hfirst, hrest⟩
  · rintro ⟨first, a, rest, rfl, hfirst, hrest⟩
    induction hfirst with
    | done a => exact hrest
    | notice n k log a _ ih => exact .notice n _ _ b (ih hrest)
    | call c k r log a _ ih => exact .call c _ r _ b (ih hrest)

/-- A step that failed is the last one heard. -/
theorem Gives.of_andThen {ε : Type} {t : Action (I.noticing N) (Except ε α)}
    {f : α → Action (I.noticing N) (Except ε β)} {log : List N} {v : Except ε β}
    (h : (t.andThen f).Gives log v) :
    (∃ e, v = .error e ∧ t.Gives log (.error e)) ∨
      ∃ first a rest, log = first ++ rest ∧ t.Gives first (.ok a) ∧ (f a).Gives rest v := by
  obtain ⟨first, outcome, rest, rfl, hfirst, hrest⟩ := (gives_bind_iff _ _ _ _).mp h
  cases outcome with
  | error e =>
    cases hrest
    rw [List.append_nil]
    exact Or.inl ⟨e, rfl, hfirst⟩
  | ok a => exact Or.inr ⟨first, a, rest, rfl, hfirst, hrest⟩

theorem Gives.of_lifted {t : Action I α} {log : List N} {a : α} (h : (t.lifted N).Gives log a) :
    log = [] := by
  induction t with
  | done _ =>
    cases h
    rfl
  | call c k ih =>
    cases h with
    | call _ _ r _ _ h => exact ih r h

theorem Gives.of_announce {notices : List N} {t : Action (I.noticing N) α} {log : List N} {a : α}
    (h : (announce notices t).Gives log a) : ∃ rest, log = notices ++ rest ∧ t.Gives rest a := by
  induction notices generalizing log with
  | nil => exact ⟨log, rfl, h⟩
  | cons n rest ih =>
    cases h with
    | notice _ _ log _ h =>
      obtain ⟨more, rfl, hmore⟩ := ih h
      exact ⟨more, rfl, hmore⟩

theorem Gives.of_reported {before : List N} {after : α → List N} {t : Action I α} {log : List N}
    {a : α} (h : (t.reported before after).Gives log a) : log = before ++ after a := by
  obtain ⟨rest, rfl, hrest⟩ := h.of_announce
  obtain ⟨first, b, last, rfl, hfirst, hlast⟩ := (gives_bind_iff _ _ _ _).mp hrest
  obtain ⟨more, rfl, hmore⟩ := hlast.of_announce
  cases hmore
  rw [hfirst.of_lifted, List.nil_append, List.append_nil]

namespace Progress

/-- What is left of the action can give these notices and have this value. -/
def Gives : Progress (I.noticing N) α → List N → α → Prop
  | finished a, log, b => log = [] ∧ a = b
  | awaiting _ c k, log, b => (Action.call c k).Gives log b

end Progress

/-- What is heard of an advance goes before what the rest gives. -/
theorem advance_gives (env : Environment I σ) (now : Nat) (t : Action (I.noticing N) α) (s : σ)
    (log : List N) :
    ∃ news, (t.advance (env.noticing N) now (s, log)).2.2 = log ++ news ∧ ∀ rest a,
      (t.advance (env.noticing N) now (s, log)).1.Gives rest a → t.Gives (news ++ rest) a := by
  induction t generalizing s log with
  | done b =>
    refine ⟨[], (List.append_nil log).symm, ?_⟩
    rintro rest a ⟨rfl, rfl⟩
    exact .done b
  | call c k ih =>
    cases c with
    | inl n =>
      obtain ⟨news, hlog, hgives⟩ := ih () s (log ++ [n])
      refine ⟨n :: news, ?_, fun rest a h => .notice n k _ a (hgives rest a h)⟩
      rw [List.append_assoc, List.singleton_append] at hlog
      exact hlog
    | inr c =>
      rcases hissue : env.issue now c s with ⟨delay, s'⟩
      unfold advance
      rw [env.issue_noticing now c s log delay s' hissue]
      cases delay with
      | zero =>
        obtain ⟨news, hlog, hgives⟩ := ih (env.answer now c s').1 (env.answer now c s').2 log
        exact ⟨news, hlog, fun rest a h => .call c k _ _ a (hgives rest a h)⟩
      | succ delay => exact ⟨[], (List.append_nil log).symm, fun rest a h => h⟩

namespace Progress

theorem resume_gives (env : Environment I σ) (now : Nat) (p : Progress (I.noticing N) α) (s : σ)
    (log : List N) :
    ∃ news, (p.resume (env.noticing N) now (s, log)).2.2 = log ++ news ∧ ∀ rest a,
      (p.resume (env.noticing N) now (s, log)).1.Gives rest a → p.Gives (news ++ rest) a := by
  cases p with
  | finished b => exact ⟨[], (List.append_nil log).symm, fun rest a h => h⟩
  | awaiting due c k =>
    by_cases hdue : due ≤ now
    · simp only [resume, hdue, if_true]
      cases c with
      | inl n =>
        obtain ⟨news, hlog, hgives⟩ := (k ()).advance_gives env now s (log ++ [n])
        refine ⟨n :: news, ?_, fun rest a h => .notice n k _ a (hgives rest a h)⟩
        rw [List.append_assoc, List.singleton_append] at hlog
        exact hlog
      | inr c =>
        obtain ⟨news, hlog, hgives⟩ :=
          (k (env.answer now c s).1).advance_gives env now (env.answer now c s).2 log
        exact ⟨news, hlog, fun rest a h => .call c k _ _ a (hgives rest a h)⟩
    · simp only [resume, hdue, if_false]
      exact ⟨[], (List.append_nil log).symm, fun rest a h => h⟩

/-- Members that are to give notices have given some of them, in any interleaving: whatever is
left to give, they give with these. -/
def Interleaved {π : Type} (gives : π → List N → α → Prop) (ps : List π) (said : List N)
    (qs : List (Progress (I.noticing N) α)) : Prop :=
  ∀ rests : List (List N × α), List.Forall₂ (fun q e => q.Gives e.1 e.2) qs rests →
    ∃ all : List (List N × α), List.Forall₂ (fun p e => gives p e.1 e.2) ps all ∧
      all.map (·.2) = rests.map (·.2) ∧ (said ++ rests.flatMap (·.1)).Perm (all.flatMap (·.1))

theorem each_gives {π : Type} (step : π → σ × List N → Progress (I.noticing N) α × σ × List N)
    (gives : π → List N → α → Prop)
    (hstep : ∀ p s log, ∃ news, (step p (s, log)).2.2 = log ++ news ∧ ∀ rest a,
      (step p (s, log)).1.Gives rest a → gives p (news ++ rest) a)
    (ps : List π) (s : σ) (log : List N) :
    ∃ said, (each step ps (s, log)).2.2 = log ++ said ∧
      Interleaved gives ps said (each step ps (s, log)).1 := by
  induction ps generalizing s log with
  | nil =>
    refine ⟨[], (List.append_nil log).symm, fun rests h => ?_⟩
    cases h
    exact ⟨[], .nil, rfl, .refl _⟩
  | cons p more ih =>
    obtain ⟨news, hlog, hgives⟩ := hstep p s log
    unfold each
    dsimp only
    rcases hfirst : step p (s, log) with ⟨q, s', log'⟩
    rw [hfirst] at hlog hgives
    obtain rfl : log' = log ++ news := hlog
    obtain ⟨later, hlater, hmore⟩ := ih s' (log ++ news)
    refine ⟨news ++ later, hlater.trans (List.append_assoc log news later), fun rests h => ?_⟩
    cases h with
    | @cons _ e _ rests hq hrests =>
      obtain ⟨all, hall, hvalues, hperm⟩ := hmore rests hrests
      refine ⟨(news ++ e.1, e.2) :: all, .cons (hgives _ _ hq) hall, ?_, ?_⟩
      · rw [List.map_cons, List.map_cons, hvalues]
      · rw [List.flatMap_cons, List.flatMap_cons]
        calc
          (news ++ later ++ (e.1 ++ rests.flatMap (·.1))).Perm
              (news ++ (e.1 ++ (later ++ rests.flatMap (·.1)))) := by
            rw [List.append_assoc]
            refine List.Perm.append_left news ?_
            rw [← List.append_assoc, ← List.append_assoc]
            exact List.perm_append_comm.append_right _
          _ |>.Perm (news ++ e.1 ++ all.flatMap (·.1)) := by
            rw [← List.append_assoc news e.1]
            exact hperm.append_left _

/-- Members that are all over have given all their notices. -/
theorem Interleaved.values {π : Type} {gives : π → List N → α → Prop} {ps : List π}
    {said : List N} {qs : List (Progress (I.noticing N) α)} (h : Interleaved gives ps said qs)
    (as : List α) (has : qs.mapM Progress.value? = some as) :
    ∃ all : List (List N × α), List.Forall₂ (fun p e => gives p e.1 e.2) ps all ∧
      all.map (·.2) = as ∧ said.Perm (all.flatMap (·.1)) := by
  have hqs : List.Forall₂ (fun (q : Progress (I.noticing N) α) (e : List N × α) =>
      q.Gives e.1 e.2) qs (as.map fun a => ([], a)) := by
    rw [mapM_value?_eq_some qs as has, List.forall₂_map_left_iff, List.forall₂_map_right_iff]
    exact List.forall₂_same.mpr fun a _ => ⟨rfl, rfl⟩
  obtain ⟨all, hall, hvalues, hperm⟩ := h _ hqs
  have hsilent : (as.map fun a => (([] : List N), a)).flatMap (·.1) = [] := by
    rw [List.flatMap_eq_nil_iff]
    rintro e he
    obtain ⟨a, _, rfl⟩ := List.mem_map.mp he
    rfl
  rw [hsilent, List.append_nil] at hperm
  refine ⟨all, hall, hvalues.trans ?_, hperm⟩
  rw [List.map_map]
  exact List.map_id as

end Progress
end Action

namespace Task
variable {I : Interface} {N ε α β σ : Type}

/-- With some answers, the task gives these notices and has this value. -/
inductive Gives : Task (I.noticing N) ε α → List N → α → Prop
  | done (a : α) : Gives (.done a) [] a
  | notice (n : N) (k : Unit → Task (I.noticing N) ε α) (log : List N) (a : α)
      (h : Gives (k ()) log a) : Gives (.call (.inl n) k) (n :: log) a
  | call (c : I.Call) (k : I.Reply c → Task (I.noticing N) ε α) (r : I.Reply c) (log : List N)
      (a : α) (h : Gives (k r) log a) : Gives (.call (.inr c) k) log a
  | group (ms : List (Action (I.noticing N) (Except ε Unit)))
      (k : List (Except ε Unit) → Task (I.noticing N) ε α)
      (outcomes : List (List N × Except ε Unit)) (said log : List N) (a : α)
      (hms : List.Forall₂ (fun m e => m.Gives e.1 e.2) ms outcomes)
      (hsaid : said.Perm (outcomes.flatMap (·.1))) (h : Gives (k (outcomes.map (·.2))) log a) :
      Gives (.group ms k) (said ++ log) a

theorem gives_bind_iff (t : Task (I.noticing N) ε α) (f : α → Task (I.noticing N) ε β)
    (log : List N) (b : β) :
    (t.bind f).Gives log b ↔ ∃ first a rest, log = first ++ rest ∧ t.Gives first a ∧
      (f a).Gives rest b := by
  constructor
  · intro h
    induction t generalizing log with
    | done a => exact ⟨[], a, log, rfl, .done a, h⟩
    | call c k ih =>
      cases h with
      | notice n _ log _ h =>
        obtain ⟨first, a, rest, rfl, hfirst, hrest⟩ := ih () log h
        exact ⟨n :: first, a, rest, rfl, .notice n k first a hfirst, hrest⟩
      | call c _ r _ _ h =>
        obtain ⟨first, a, rest, rfl, hfirst, hrest⟩ := ih r log h
        exact ⟨first, a, rest, rfl, .call c k r first a hfirst, hrest⟩
    | group ms k ih =>
      cases h with
      | group _ _ outcomes said log _ hms hsaid h =>
        obtain ⟨first, a, rest, rfl, hfirst, hrest⟩ := ih _ log h
        refine ⟨said ++ first, a, rest, (List.append_assoc said first rest).symm, ?_, hrest⟩
        exact .group ms k outcomes said first a hms hsaid hfirst
  · rintro ⟨first, a, rest, rfl, hfirst, hrest⟩
    induction hfirst with
    | done a => exact hrest
    | notice n k log a _ ih => exact .notice n _ _ b (ih hrest)
    | call c k r log a _ ih => exact .call c _ r _ b (ih hrest)
    | group ms k outcomes said log a hms hsaid _ ih =>
      rw [List.append_assoc]
      exact .group ms _ outcomes said _ b hms hsaid (ih hrest)

/-- A step that failed is the last one heard. -/
theorem Gives.of_andThen {t : Task (I.noticing N) ε (Except ε α)}
    {f : α → Task (I.noticing N) ε (Except ε β)} {log : List N} {v : Except ε β}
    (h : (t.andThen f).Gives log v) :
    (∃ e, v = .error e ∧ t.Gives log (.error e)) ∨
      ∃ first a rest, log = first ++ rest ∧ t.Gives first (.ok a) ∧ (f a).Gives rest v := by
  obtain ⟨first, outcome, rest, rfl, hfirst, hrest⟩ := (gives_bind_iff _ _ _ _).mp h
  cases outcome with
  | error e =>
    cases hrest
    rw [List.append_nil]
    exact Or.inl ⟨e, rfl, hfirst⟩
  | ok a => exact Or.inr ⟨first, a, rest, rfl, hfirst, hrest⟩

theorem gives_ofAction_iff (t : Action (I.noticing N) α) (log : List N) (a : α) :
    (ofAction t : Task (I.noticing N) ε α).Gives log a ↔ t.Gives log a := by
  constructor
  · intro h
    induction t generalizing log with
    | done _ =>
      cases h
      exact .done a
    | call c k ih =>
      cases h with
      | notice n _ log _ h => exact .notice n k log a (ih () log h)
      | call c _ r _ _ h => exact .call c k r log a (ih r log h)
  · intro h
    induction h with
    | done b => exact .done b
    | notice n k log b _ ih => exact .notice n _ log b ih
    | call c k r log b _ ih => exact .call c _ r log b ih

namespace Progress

/-- What is left of the task can give these notices and have this value. -/
def Gives : Progress (I.noticing N) ε α → List N → α → Prop
  | finished a, log, b => log = [] ∧ a = b
  | awaiting _ c k, log, b => (Task.call c k).Gives log b
  | joining ps k, log, b =>
    ∃ (outcomes : List (List N × Except ε Unit)) (said rest : List N),
      List.Forall₂ (fun p e => p.Gives e.1 e.2) ps outcomes ∧
      said.Perm (outcomes.flatMap (·.1)) ∧ log = said ++ rest ∧
      (k (outcomes.map (·.2))).Gives rest b

end Progress

/-- What is heard at once comes first, and what the rest of the work gives follows on it. -/
theorem advance_gives (env : Environment I σ) (now : Nat) (t : Task (I.noticing N) ε α) (s : σ)
    (log : List N) :
    ∃ news, (t.advance (env.noticing N) now (s, log)).2.2 = log ++ news ∧ ∀ rest a,
      (t.advance (env.noticing N) now (s, log)).1.Gives rest a → t.Gives (news ++ rest) a := by
  induction t generalizing s log with
  | done b =>
    refine ⟨[], (List.append_nil log).symm, ?_⟩
    rintro rest a ⟨rfl, rfl⟩
    exact .done b
  | call c k ih =>
    cases c with
    | inl n =>
      obtain ⟨news, hlog, hgives⟩ := ih () s (log ++ [n])
      refine ⟨n :: news, ?_, fun rest a h => .notice n k _ a (hgives rest a h)⟩
      rw [List.append_assoc, List.singleton_append] at hlog
      exact hlog
    | inr c =>
      rcases hissue : env.issue now c s with ⟨delay, s'⟩
      unfold advance
      rw [env.issue_noticing now c s log delay s' hissue]
      cases delay with
      | zero =>
        obtain ⟨news, hlog, hgives⟩ := ih (env.answer now c s').1 (env.answer now c s').2 log
        exact ⟨news, hlog, fun rest a h => .call c k _ _ a (hgives rest a h)⟩
      | succ delay => exact ⟨[], (List.append_nil log).symm, fun rest a h => h⟩
  | group ms k ih =>
    obtain ⟨said, hsaid, hmembers⟩ := Action.Progress.each_gives
      (fun m s => m.advance (env.noticing N) now s) Action.Gives
      (fun m s log => m.advance_gives env now s log) ms s log
    unfold advance
    dsimp only
    rcases hgroup : Action.Progress.each (fun m s => m.advance (env.noticing N) now s) ms (s, log)
      with ⟨ps, s', log'⟩
    rw [hgroup] at hsaid hmembers ⊢
    obtain rfl : log' = log ++ said := hsaid
    split
    · rename_i rs hvalues
      obtain ⟨news, hlog, hgives⟩ := ih rs s' (log ++ said)
      refine ⟨said ++ news, hlog.trans (List.append_assoc log said news), fun rest a h => ?_⟩
      obtain ⟨outcomes, hall, rfl, hperm⟩ := hmembers.values rs hvalues
      rw [List.append_assoc]
      exact .group ms k outcomes said _ a hall hperm (hgives rest a h)
    · refine ⟨said, rfl, ?_⟩
      rintro rest a ⟨rests, later, more, hps, hlater, rfl, hk⟩
      obtain ⟨outcomes, hall, hresults, hperm⟩ := hmembers rests hps
      rw [← List.append_assoc]
      refine .group ms k outcomes _ more a hall ?_ (hresults ▸ hk)
      exact (hlater.append_left said).trans hperm

/-- What is heard when work goes on comes before what the rest of it gives. -/
theorem Progress.resume_gives (env : Environment I σ) (now : Nat)
    (p : Progress (I.noticing N) ε α) (s : σ) (log : List N) :
    ∃ news, (p.resume (env.noticing N) now (s, log)).2.2 = log ++ news ∧ ∀ rest a,
      (p.resume (env.noticing N) now (s, log)).1.Gives rest a → p.Gives (news ++ rest) a := by
  cases p with
  | finished b => exact ⟨[], (List.append_nil log).symm, fun rest a h => h⟩
  | awaiting due c k =>
    by_cases hdue : due ≤ now
    · simp only [resume, hdue, if_true]
      cases c with
      | inl n =>
        obtain ⟨news, hlog, hgives⟩ := (k ()).advance_gives env now s (log ++ [n])
        refine ⟨n :: news, ?_, fun rest a h => .notice n k _ a (hgives rest a h)⟩
        rw [List.append_assoc, List.singleton_append] at hlog
        exact hlog
      | inr c =>
        obtain ⟨news, hlog, hgives⟩ :=
          (k (env.answer now c s).1).advance_gives env now (env.answer now c s).2 log
        exact ⟨news, hlog, fun rest a h => .call c k _ _ a (hgives rest a h)⟩
    · simp only [resume, hdue, if_false]
      exact ⟨[], (List.append_nil log).symm, fun rest a h => h⟩
  | joining ps k =>
    obtain ⟨said, hsaid, hmembers⟩ := Action.Progress.each_gives
      (fun p s => p.resume (env.noticing N) now s) Action.Progress.Gives
      (fun p s log => p.resume_gives env now s log) ps s log
    simp only [resume]
    rcases hgroup : Action.Progress.each (fun p s => p.resume (env.noticing N) now s) ps (s, log)
      with ⟨qs, s', log'⟩
    rw [hgroup] at hsaid hmembers ⊢
    obtain rfl : log' = log ++ said := hsaid
    split
    · rename_i rs hvalues
      obtain ⟨news, hlog, hgives⟩ := (k rs).advance_gives env now s' (log ++ said)
      refine ⟨said ++ news, hlog.trans (List.append_assoc log said news), fun rest a h => ?_⟩
      obtain ⟨outcomes, hall, rfl, hperm⟩ := hmembers.values rs hvalues
      exact ⟨outcomes, said, news ++ rest, hall, hperm, List.append_assoc said news rest,
        hgives rest a h⟩
    · refine ⟨said, rfl, ?_⟩
      rintro rest a ⟨rests, later, more, hps, hlater, rfl, hk⟩
      obtain ⟨outcomes, hall, hresults, hperm⟩ := hmembers rests hps
      exact ⟨outcomes, said ++ later, more, hall, (hlater.append_left said).trans hperm,
        (List.append_assoc said later more).symm, hresults ▸ hk⟩

/-- What a task can have come to: it was started at some time, and went on at any times, in any
states of the environment. -/
inductive Reaches (env : Environment I σ) (t : Task I ε α) : Progress I ε α → Prop
  | start (now : Nat) (s : σ) : Reaches env t (t.advance env now s).1
  | resume (p : Progress I ε α) (h : Reaches env t p) (now : Nat) (s : σ) :
      Reaches env t (p.resume env now s).1

/-- What a task with notices can have come to, and what has been heard of it till then. -/
inductive Heard (env : Environment I σ) (t : Task (I.noticing N) ε α) :
    List N → Progress (I.noticing N) ε α → Prop
  | start (now : Nat) (s : σ) (p : Progress (I.noticing N) ε α) (s' : σ) (log : List N)
      (hrun : t.advance (env.noticing N) now (s, []) = (p, s', log)) : Heard env t log p
  | resume (log : List N) (p : Progress (I.noticing N) ε α) (h : Heard env t log p) (now : Nat)
      (s : σ) (p' : Progress (I.noticing N) ε α) (s' : σ) (log' : List N)
      (hrun : p.resume (env.noticing N) now (s, log) = (p', s', log')) : Heard env t log' p'

/-- However it goes on, the work comes to a value. -/
inductive Progress.Ends (env : Environment I σ) : Progress I ε α → Prop
  | finished (a : α) : Ends env (.finished a)
  | going (p : Progress I ε α) (hdues : p.dues ≠ [])
      (h : ∀ q, Progress.Later env q p → Ends env q) : Ends env p

section
variable {env : Environment I σ}

/-- Whenever work is looked at, the log and what is still to come are something that it gives. -/
theorem Heard.gives_rest {t : Task (I.noticing N) ε α} {log : List N}
    {p : Progress (I.noticing N) ε α} (h : t.Heard env log p) (rest : List N) (a : α)
    (hrest : p.Gives rest a) : t.Gives (log ++ rest) a := by
  induction h generalizing rest with
  | start now s p s' log hrun =>
    obtain ⟨news, hlog, hgives⟩ := t.advance_gives env now s []
    rw [hrun] at hlog hgives
    obtain rfl : log = news := hlog
    exact hgives rest a hrest
  | resume log p _ now s p' s' log' hrun ih =>
    obtain ⟨news, hlog, hgives⟩ := p.resume_gives env now s log
    rw [hrun] at hlog hgives
    obtain rfl : log' = log ++ news := hlog
    rw [List.append_assoc]
    exact ih _ (hgives rest a hrest)

/-- The notices heard of a task that is over are some that it gives. -/
theorem Heard.gives {t : Task (I.noticing N) ε α} {log : List N} {a : α}
    (h : t.Heard env log (.finished a)) : t.Gives log a := by
  have hall := h.gives_rest [] a ⟨rfl, rfl⟩
  rwa [List.append_nil] at hall

/-- Whatever a muted task has come to, the task with notices has been heard to come to. -/
theorem Reaches.heard {t : Task (I.noticing N) ε α} {p : Progress I ε α}
    (h : t.muted.Reaches env p) : ∃ log q, t.Heard env log q ∧ q.Mutes p := by
  induction h with
  | start now s =>
    exact ⟨_, _, .start now s _ _ _ rfl, (t.advance_muted env now s []).1⟩
  | resume p _ now s ih =>
    obtain ⟨log, q, hheard, hmutes⟩ := ih
    exact ⟨_, _, .resume log q hheard now s _ _ _ rfl, (hmutes.resume env now s log).1⟩

theorem Progress.Waits.ends (p : Progress I ε α) (h : p.Waits) : p.Ends env := by
  induction p using (Progress.later_wellFounded env).induction with
  | _ p ih =>
    cases hvalue : p.value? with
    | none =>
      refine .going p (h hvalue) ?_
      rintro q ⟨now, s, hdue, rfl⟩
      exact ih _ ⟨now, s, hdue, rfl⟩ (p.resume_waits env now s)
    | some a =>
      cases p with
      | finished a => exact .finished a
      | _ => cases hvalue

theorem Reaches.ends {t : Task I ε α} {p : Progress I ε α} (h : t.Reaches env p) :
    p.Ends env := by
  refine Progress.Waits.ends p ?_
  cases h with
  | start now s => exact t.advance_waits env now s
  | resume p _ now s => exact p.resume_waits env now s

/-- Two tasks that differ in notices. However the one without them goes on, it comes to a value;
the other one is heard all the while, and in the end what was heard is as the report has it. -/
structure Reports (env : Environment I σ) (report : List N → α → Prop)
    (t' : Task (I.noticing N) ε α) (t : Task I ε α) : Prop where
  muted : t'.muted = t
  ends : ∀ p, t.Reaches env p → p.Ends env
  heard : ∀ p, t.Reaches env p → ∃ log q, t'.Heard env log q ∧ q.Mutes p
  complete : ∀ log a, t'.Heard env log (.finished a) → report log a

theorem Reports.of_gives {report : List N → α → Prop} {t' : Task (I.noticing N) ε α}
    {t : Task I ε α} (hmuted : t'.muted = t) (hgives : ∀ log a, t'.Gives log a → report log a) :
    Reports env report t' t where
  muted := hmuted
  ends _ h := h.ends
  heard p h := by
    subst hmuted
    exact h.heard
  complete log a h := hgives log a h.gives

end

end Task
end Reconciliation
