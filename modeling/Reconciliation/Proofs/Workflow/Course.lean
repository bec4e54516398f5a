import Reconciliation.Proofs.Workflow.Drive

/-!
The course of a walk on a clock. One visit after another goes on or starts, and every visit under
way waits for a time. When that time has come the walk goes on, and something of its work is gone:
a node that had not started, or a part of the visits under way. So a walk comes to its end,
whatever is answered. Where every visit can only return the outcome of its node, the walk has in
the end the outcomes that its nodes are bound to have.
-/
namespace Reconciliation

open Relation

namespace Drive
variable {τ : Type}

/-- A running node has one place among the running ones. -/
theorem running_split (d : Drive τ) (i : Nat) (t t' : τ) (hkeys : (d.running.map (·.1)).Nodup)
    (ht : (i, t) ∈ d.running) :
    ∃ before after, d.running = before ++ (i, t) :: after ∧
      (d.update i t').running = before ++ (i, t') :: after ∧
      (d.update i t').running.filter (·.1 ≠ i) = before ++ after := by
  obtain ⟨before, after, heq⟩ := List.append_of_mem ht
  rw [heq, List.map_append, List.map_cons, List.nodup_append, List.nodup_cons] at hkeys
  obtain ⟨_, ⟨hafter, _⟩, hbefore⟩ := hkeys
  have hne : ∀ e ∈ before ++ after, e.1 ≠ i := by
    intro e he hi
    rcases List.mem_append.mp he with he | he
    · exact hbefore e.1 (List.mem_map_of_mem he) i List.mem_cons_self hi
    · have hkey : e.1 ∈ after.map (·.1) := List.mem_map_of_mem he
      exact hafter (hi ▸ hkey)
  have hkeep : ∀ l : List (Nat × τ), (∀ e ∈ l, e.1 ≠ i) →
      l.map (fun e => if e.1 = i then (i, t') else e) = l := by
    intro l hl
    rw [List.map_congr_left fun e he => if_neg (hl e he)]
    exact List.map_id' l
  have hupdate : (d.update i t').running = before ++ (i, t') :: after := by
    unfold update
    dsimp only
    rw [heq, List.map_append, List.map_cons, if_pos rfl,
      hkeep before fun e he => hne e (List.mem_append_left _ he),
      hkeep after fun e he => hne e (List.mem_append_right _ he)]
  refine ⟨before, after, heq, hupdate, ?_⟩
  rw [hupdate, List.filter_append, List.filter_cons_of_neg (by simp), ← List.filter_append,
    List.filter_eq_self]
  intro e he
  simpa using hne e he

/-- A visit that has not gone on leaves the walk as it was. -/
theorem update_self (d : Drive τ) (i : Nat) (t : τ) (hkeys : (d.running.map (·.1)).Nodup)
    (ht : (i, t) ∈ d.running) : d.update i t = d := by
  obtain ⟨before, after, heq, hupdate, _⟩ := d.running_split i t t hkeys ht
  have hrunning : (d.update i t).running = d.running := hupdate.trans heq.symm
  unfold update at hrunning ⊢
  dsimp only at hrunning
  rw [hrunning]

end Drive

namespace Walk
variable {I : Interface} {σ : Type}

theorem mem_running_note {w : Walk I} (d : Ongoing I) (i : Nat)
    (q : Task.Progress I Error NodeOutcome) (e : Nat × Task.Progress I Error NodeOutcome)
    (he : e ∈ d.running) (hne : e.1 ≠ i) : e ∈ (w.note d i q).running := by
  have hupdate := d.mem_running_update_of_ne i q e he hne
  unfold note
  cases q.value? with
  | none => exact hupdate
  | some o => exact List.mem_filter.mpr ⟨hupdate, by simpa using hne⟩

/-- One thing that happens in a walk: a running visit goes on, or a waiting node starts. -/
inductive Goes (w : Walk I) (visit : Nat → Task I Error NodeOutcome) (env : Environment I σ) :
    Ongoing I × σ → Ongoing I × σ → Prop
  | resume (d : Ongoing I) (s : σ) (i : Nat) (p : Task.Progress I Error NodeOutcome)
      (hp : (i, p) ∈ d.running) (now : Nat) :
      Goes w visit env (d, s) (w.note d i (p.resume env now s).1, (p.resume env now s).2)
  | start (d : Ongoing I) (s : σ) (i : Nat) (rest : List Nat) (hwait : d.waiting = i :: rest)
      (hroom : w.hasRoom d = true) (now : Nat) :
      Goes w visit env (d, s)
        (w.note (d.start i ((visit i).advance env now s).1) i ((visit i).advance env now s).1,
          ((visit i).advance env now s).2)

/-- What is due goes on one visit at a time. The nodes are distinct, so each visit goes on once. -/
theorem goes_resumeAll (w : Walk I) (visit : Nat → Task I Error NodeOutcome)
    (env : Environment I σ) (now : Nat) (es : List (Nat × Task.Progress I Error NodeOutcome))
    (hkeys : (es.map (·.1)).Nodup) (d : Ongoing I) (hes : ∀ e ∈ es, e ∈ d.running) (s : σ) :
    ReflTransGen (w.Goes visit env) (d, s) (w.resumeAll env now es d s) := by
  induction es generalizing d s with
  | nil => exact .refl
  | cons e rest ih =>
    obtain ⟨i, p⟩ := e
    rw [List.map_cons, List.nodup_cons] at hkeys
    have hp : (i, p) ∈ d.running := hes _ List.mem_cons_self
    refine .head (.resume d s i p hp now) (ih hkeys.2 _ (fun e he => ?_) _)
    refine mem_running_note d i _ e (hes e (List.mem_cons_of_mem _ he)) fun hi => ?_
    have hkey : e.1 ∈ rest.map (·.1) := List.mem_map_of_mem he
    exact hkeys.1 (hi ▸ hkey)

/-- The waiting nodes start one at a time, as long as there is room. -/
theorem goes_startAll (w : Walk I) (visit : Nat → Task I Error NodeOutcome)
    (env : Environment I σ) (now fuel : Nat) (d : Ongoing I) (s : σ) :
    ReflTransGen (w.Goes visit env) (d, s) (w.startAll visit env now fuel d s) := by
  induction fuel generalizing d s with
  | zero => exact .refl
  | succ fuel ih =>
    unfold startAll
    cases hwait : d.waiting with
    | nil => exact .refl
    | cons i rest =>
      dsimp only
      cases hroom : w.hasRoom d with
      | false => exact .refl
      | true => exact .head (.start d s i rest hwait hroom now) (ih _ _)

/-- A walk settles by one thing after another. -/
theorem goes_settle (w : Walk I) (visit : Nat → Task I Error NodeOutcome)
    (env : Environment I σ) (now : Nat) (d : Ongoing I) (hkeys : (d.running.map (·.1)).Nodup)
    (s : σ) : ReflTransGen (w.Goes visit env) (d, s) (w.settle visit env now d s) :=
  (w.goes_resumeAll visit env now d.running hkeys d (fun _ he => he) s).trans
    (w.goes_startAll visit env now _ _ _)

/-- What one thing after another keeps is kept when a walk settles. -/
theorem settle_keeps (w : Walk I) (visit : Nat → Task I Error NodeOutcome)
    (env : Environment I σ) (P : Ongoing I → σ → Prop)
    (hkeeps : ∀ d s d' s', P d s → w.Goes visit env (d, s) (d', s') → P d' s') (now : Nat)
    (d : Ongoing I) (hkeys : (d.running.map (·.1)).Nodup) (s : σ) (h : P d s) :
    P (w.settle visit env now d s).1 (w.settle visit env now d s).2 := by
  have hgoes := w.goes_settle visit env now d hkeys s
  generalize w.settle visit env now d s = x at hgoes
  induction hgoes with
  | refl => exact h
  | tail _ hstep ih => exact hkeeps _ _ _ _ ih hstep

/-- The visits under way, in no order. -/
def visits (d : Ongoing I) : Multiset (Task.Progress I Error NodeOutcome) :=
  Multiset.ofList (d.running.map (·.2))

/-- The nodes that have not started, and the visits under way. -/
def remaining (w : Walk I) (d : Ongoing I) : Nat × Multiset (Task.Progress I Error NodeOutcome) :=
  (w.workflow.nodes.length - (d.running.length + d.completed.length), visits d)

/-- Some work of the walk is gone. -/
def Lower (w : Walk I) (env : Environment I σ) (d' d : Ongoing I) : Prop :=
  Prod.Lex (· < ·) (CutExpand (Task.Progress.Later env)) (w.remaining d') (w.remaining d)

theorem Tidy.keys_nodup {τ : Type} {w : Walk I} {outcome : Nat → NodeOutcome} {d : Drive τ}
    (h : w.Tidy outcome d) : (d.running.map (·.1)).Nodup :=
  (List.nodup_append.mp h.nodup).2.1.sublist (List.sublist_append_left _ _)

theorem Tidy.length_le {τ : Type} {w : Walk I} {outcome : Nat → NodeOutcome} {d : Drive τ}
    (h : w.Tidy outcome d) :
    d.waiting.length + (d.running.length + d.completed.length) ≤ w.workflow.nodes.length := by
  have hsubset : d.ids ⊆ List.range w.workflow.nodes.length :=
    fun i hi => List.mem_range.mpr (h.ids_lt i hi)
  have hlength := (h.nodup.subperm hsubset).length_le
  unfold Drive.ids at hlength
  simpa using hlength

theorem eq_finished_of_value? (p : Task.Progress I Error NodeOutcome) (o : NodeOutcome)
    (h : p.value? = some o) : p = .finished o := by
  cases p with
  | finished a =>
    cases h
    rfl
  | awaiting due c k => cases h
  | joining ps k => cases h

/-- Taking note of a visit changes neither what has started nor what has not. -/
theorem length_note (w : Walk I) (d : Ongoing I) (hkeys : (d.running.map (·.1)).Nodup) (i : Nat)
    (p q : Task.Progress I Error NodeOutcome) (hp : (i, p) ∈ d.running) :
    (w.note d i q).running.length + (w.note d i q).completed.length =
      d.running.length + d.completed.length := by
  obtain ⟨before, after, heq, hupdate, hfilter⟩ := d.running_split i p q hkeys hp
  have hlength : d.running.length = (before ++ after).length + 1 := by
    rw [heq, List.length_append, List.length_append, List.length_cons]
    omega
  unfold note
  cases q.value? with
  | none =>
    have hsame : (d.update i q).running.length = d.running.length := by
      rw [hupdate, heq, List.length_append, List.length_append, List.length_cons,
        List.length_cons]
    exact congrArg (· + d.completed.length) hsame
  | some o =>
    change ((d.update i q).running.filter (·.1 ≠ i)).length + (d.completed ++ [(i, o)]).length = _
    rw [hfilter, hlength]
    simp only [List.length_append, List.length_singleton]
    omega

/-- Taking note of a visit that went on replaces it by a part of it, or by nothing. -/
theorem cut_note (w : Walk I) (env : Environment I σ) (d : Ongoing I)
    (hkeys : (d.running.map (·.1)).Nodup) (i : Nat) (p q : Task.Progress I Error NodeOutcome)
    (hp : (i, p) ∈ d.running) (hlater : Task.Progress.Later env q p) :
    CutExpand (Task.Progress.Later env) (visits (w.note d i q)) (visits d) := by
  obtain ⟨before, after, heq, hupdate, hfilter⟩ := d.running_split i p q hkeys hp
  have hmove : ∀ p : Task.Progress I Error NodeOutcome,
      Multiset.ofList ((before ++ (i, p) :: after).map (·.2)) =
        {p} + Multiset.ofList ((before ++ after).map (·.2)) := by
    intro p
    rw [Multiset.singleton_add, Multiset.cons_coe, Multiset.coe_eq_coe, List.map_append,
      List.map_append, List.map_cons]
    exact List.perm_middle
  unfold note visits
  cases q.value? with
  | none =>
    dsimp only
    rw [hupdate, heq, hmove, hmove]
    exact cutExpand_single_add hlater _
  | some o =>
    have hgone : CutExpand (Task.Progress.Later env) 0 {p} := cutExpand_zero
    have hrest := (cutExpand_add_right (Multiset.ofList ((before ++ after).map (·.2)))).mpr hgone
    rw [zero_add] at hrest
    change CutExpand _ (Multiset.ofList (((d.update i q).running.filter (·.1 ≠ i)).map (·.2))) _
    rw [hfilter, heq, hmove]
    exact hrest

theorem lower_note (w : Walk I) (env : Environment I σ) (d : Ongoing I)
    (hkeys : (d.running.map (·.1)).Nodup) (i : Nat) (p q : Task.Progress I Error NodeOutcome)
    (hp : (i, p) ∈ d.running) (hlater : Task.Progress.Later env q p) :
    w.Lower env (w.note d i q) d := by
  unfold Lower remaining
  rw [w.length_note d hkeys i p q hp]
  exact Prod.Lex.right _ (w.cut_note env d hkeys i p q hp hlater)

/-- A running node may finish with any outcome. -/
theorem Tidy.finish_any {τ : Type} {w : Walk I} (hw : w.workflow.WellFormed) {outcome : Nat → NodeOutcome}
    {d : Drive τ} (h : w.Tidy outcome d) (i : Nat) (hi : i ∈ d.running.map (·.1))
    (o : NodeOutcome) : w.Tidy (Function.update outcome i o) (w.finish d i o) := by
  have hcompleted : ∀ e ∈ d.completed, e.1 ≠ i := by
    intro e he heq
    have hdisjoint := (List.nodup_append.mp (List.nodup_append.mp h.nodup).2.1).2.2
    exact hdisjoint i hi e.1 (List.mem_map_of_mem he) heq.symm
  have houtcomes : ∀ e ∈ d.completed, e.2 = Function.update outcome i o e.1 := by
    intro e he
    rw [Function.update_of_ne (hcompleted e he)]
    exact h.outcomes e he
  have htidy : w.Tidy (Function.update outcome i o) d :=
    ⟨h.nodup, h.ids_lt, h.eligible, h.released, houtcomes⟩
  have hfinish := htidy.finish hw i hi
  rwa [Function.update_self] at hfinish

/-- The walk is tidy whatever its outcomes are, and the visits under way wait for a time. -/
structure Lively (w : Walk I) (d : Ongoing I) : Prop where
  tidy : ∃ outcome, w.Tidy outcome d
  running : ∀ e ∈ d.running, e.2.value? = none ∧ e.2.dues ≠ []

theorem lively_begin (w : Walk I) (hw : w.workflow.WellFormed) :
    w.Lively (w.begin : Ongoing I) :=
  ⟨⟨fun _ => default, w.tidy_begin hw _⟩, fun _ h => absurd h List.not_mem_nil⟩

theorem Lively.keys_nodup {w : Walk I} {d : Ongoing I} (h : w.Lively d) :
    (d.running.map (·.1)).Nodup := by
  obtain ⟨_, htidy⟩ := h.tidy
  exact htidy.keys_nodup

/-- A visit that has just gone on is over or waits for a time. -/
theorem lively_note {w : Walk I} (hw : w.workflow.WellFormed) {d : Ongoing I}
    (h : ∃ outcome, w.Tidy outcome d) (i : Nat) (hi : i ∈ d.running.map (·.1))
    (hothers : ∀ e ∈ d.running, e.1 ≠ i → e.2.value? = none ∧ e.2.dues ≠ [])
    (q : Task.Progress I Error NodeOutcome) (hq : q.Waits) : w.Lively (w.note d i q) := by
  obtain ⟨outcome, htidy⟩ := h
  unfold note
  cases hvalue : q.value? with
  | none =>
    refine ⟨⟨outcome, htidy.update i q⟩, fun e he => ?_⟩
    rcases d.mem_running_update i q e he with rfl | ⟨hold, hne⟩
    · exact ⟨hvalue, hq hvalue⟩
    · exact hothers e hold hne
  | some o =>
    have hkey : i ∈ (d.update i q).running.map (·.1) := by rwa [Drive.keys_update]
    refine ⟨⟨_, (htidy.update i q).finish_any hw i hkey o⟩, fun e he => ?_⟩
    obtain ⟨hmem, hne⟩ := List.mem_filter.mp he
    rcases d.mem_running_update i q e hmem with rfl | ⟨hold, hne⟩
    · simp at hne
    · exact hothers e hold hne

theorem Lively.resume {w : Walk I} (hw : w.workflow.WellFormed) {d : Ongoing I} (h : w.Lively d)
    (env : Environment I σ) (now : Nat) (s : σ) (i : Nat)
    (p : Task.Progress I Error NodeOutcome) (hp : (i, p) ∈ d.running) :
    w.Lively (w.note d i (p.resume env now s).1) :=
  lively_note hw h.tidy i (List.mem_map_of_mem hp) (fun e he _ => h.running e he) _
    (p.resume_waits env now s)

/-- A node that starts has not started before. -/
theorem Lively.start {w : Walk I} (hw : w.workflow.WellFormed) {d : Ongoing I} (h : w.Lively d)
    (i : Nat) (rest : List Nat) (hwait : d.waiting = i :: rest)
    (p : Task.Progress I Error NodeOutcome) (hp : p.Waits) (env : Environment I σ) :
    w.Lively (w.note (d.start i p) i p) ∧
      (w.note (d.start i p) i p).running.length + (w.note (d.start i p) i p).completed.length =
        d.running.length + d.completed.length + 1 ∧
      w.Lower env (w.note (d.start i p) i p) d := by
  obtain ⟨outcome, htidy⟩ := h.tidy
  have hstarted := htidy.start i rest p hwait
  have hlast : (i, p) ∈ (d.start i p).running :=
    List.mem_append_right _ (List.mem_singleton_self _)
  have hlength : (w.note (d.start i p) i p).running.length +
      (w.note (d.start i p) i p).completed.length = d.running.length + d.completed.length + 1 := by
    rw [w.length_note (d.start i p) hstarted.keys_nodup i p p hlast]
    change (d.running ++ [(i, p)]).length + d.completed.length = _
    rw [List.length_append, List.length_singleton]
    omega
  refine ⟨?_, hlength, ?_⟩
  · refine lively_note hw ⟨outcome, hstarted⟩ i (List.mem_map_of_mem hlast)
      (fun e he hne => ?_) p hp
    rcases List.mem_append.mp he with hold | hnew
    · exact h.running e hold
    · rw [List.mem_singleton.mp hnew] at hne
      exact absurd rfl hne
  · have hbound := htidy.length_le
    rw [hwait, List.length_cons] at hbound
    unfold Lower remaining
    rw [hlength]
    refine Prod.Lex.left _ _ ?_
    omega

/-- Only what is due goes on. -/
theorem Lively.resume_early {w : Walk I} {d : Ongoing I} (h : w.Lively d)
    (env : Environment I σ) (now : Nat) (s : σ) (i : Nat)
    (p : Task.Progress I Error NodeOutcome) (hp : (i, p) ∈ d.running)
    (hdue : ¬ ∃ due ∈ p.dues, due ≤ now) : w.note d i (p.resume env now s).1 = d := by
  obtain ⟨hgoing, hwaits⟩ := h.running (i, p) hp
  rw [p.resume_early env now s (fun due hmem hle => hdue ⟨due, hmem, hle⟩) hwaits]
  unfold note
  dsimp only at hgoing ⊢
  rw [hgoing]
  exact d.update_self i p h.keys_nodup hp

/-- The visits that are due go on one after another. -/
theorem Lively.resumeAll {w : Walk I} (hw : w.workflow.WellFormed) (env : Environment I σ)
    (now : Nat) (es : List (Nat × Task.Progress I Error NodeOutcome))
    (hkeys : (es.map (·.1)).Nodup) (d : Ongoing I) (h : w.Lively d)
    (hes : ∀ e ∈ es, e ∈ d.running) (s : σ) :
    w.Lively (w.resumeAll env now es d s).1 ∧
      ReflTransGen (w.Lower env) (w.resumeAll env now es d s).1 d ∧
      ((∃ e ∈ es, ∃ due ∈ e.2.dues, due ≤ now) →
        TransGen (w.Lower env) (w.resumeAll env now es d s).1 d) := by
  induction es generalizing d s with
  | nil =>
    refine ⟨h, .refl, ?_⟩
    rintro ⟨e, he, _⟩
    cases he
  | cons e rest ih =>
    obtain ⟨i, p⟩ := e
    rw [List.map_cons, List.nodup_cons] at hkeys
    have hp : (i, p) ∈ d.running := hes _ List.mem_cons_self
    have hothers : ∀ e ∈ rest, e ∈ (w.note d i (p.resume env now s).1).running := by
      intro e he
      refine mem_running_note d i _ e (hes e (List.mem_cons_of_mem _ he)) fun hi => ?_
      have hkey : e.1 ∈ rest.map (·.1) := List.mem_map_of_mem he
      exact hkeys.1 (hi ▸ hkey)
    obtain ⟨hlively, hle, hlt⟩ := ih hkeys.2 _ (h.resume hw env now s i p hp) hothers
      (p.resume env now s).2
    unfold Walk.resumeAll
    dsimp only
    by_cases hdue : ∃ due ∈ p.dues, due ≤ now
    · have hlater : Task.Progress.Later env (p.resume env now s).1 p := ⟨now, s, hdue, rfl⟩
      have hstep := w.lower_note env d h.keys_nodup i p _ hp hlater
      exact ⟨hlively, hle.tail hstep, fun _ => .tail' hle hstep⟩
    · rw [h.resume_early env now s i p hp hdue] at hlively hle hlt ⊢
      refine ⟨hlively, hle, ?_⟩
      rintro ⟨e, he, hedue⟩
      rcases List.mem_cons.mp he with rfl | he
      · exact absurd hedue hdue
      · exact hlt ⟨e, he, hedue⟩

/-- Starting goes on until nothing waits or there is no room. -/
theorem Lively.startAll {w : Walk I} (hw : w.workflow.WellFormed)
    (visit : Nat → Task I Error NodeOutcome) (env : Environment I σ) (now fuel : Nat)
    (d : Ongoing I) (h : w.Lively d) (s : σ) :
    w.Lively (w.startAll visit env now fuel d s).1 ∧
      ReflTransGen (w.Lower env) (w.startAll visit env now fuel d s).1 d ∧
      (w.workflow.nodes.length ≤ fuel + (d.running.length + d.completed.length) →
        (w.startAll visit env now fuel d s).1.waiting = [] ∨
          w.hasRoom (w.startAll visit env now fuel d s).1 = false) := by
  induction fuel generalizing d s with
  | zero =>
    refine ⟨h, .refl, fun hfuel => Or.inl ?_⟩
    obtain ⟨_, htidy⟩ := h.tidy
    have hbound := htidy.length_le
    exact List.length_eq_zero_iff.mp (by change d.waiting.length = 0; omega)
  | succ fuel ih =>
    unfold Walk.startAll
    cases hwait : d.waiting with
    | nil => exact ⟨h, .refl, fun _ => Or.inl hwait⟩
    | cons i rest =>
      dsimp only
      cases hroom : w.hasRoom d with
      | false => exact ⟨h, .refl, fun _ => Or.inr hroom⟩
      | true =>
        obtain ⟨hlively, hlength, hlower⟩ := h.start hw i rest hwait _
          ((visit i).advance_waits env now s) env
        obtain ⟨hall, hle, hquiet⟩ := ih _ hlively ((visit i).advance env now s).2
        refine ⟨hall, hle.tail hlower, fun hfuel => hquiet ?_⟩
        omega

/-- When a walk has settled at a time at which something was due, some of its work is gone;
unless it is over, it waits for another time. -/
theorem Lively.settle {w : Walk I} (hw : w.workflow.WellFormed)
    (visit : Nat → Task I Error NodeOutcome) (env : Environment I σ) (now : Nat) (d : Ongoing I)
    (h : w.Lively d) (s : σ) :
    w.Lively (w.settle visit env now d s).1 ∧
      ((∃ e ∈ d.running, ∃ due ∈ e.2.dues, due ≤ now) →
        TransGen (w.Lower env) (w.settle visit env now d s).1 d) ∧
      ((w.settle visit env now d s).1.isOver = false →
        (w.settle visit env now d s).1.running.flatMap (fun e => e.2.dues) ≠ []) := by
  obtain ⟨hresumed, _, hlower⟩ :=
    Lively.resumeAll hw env now d.running h.keys_nodup d h (fun e he => he) s
  obtain ⟨hlively, hle, hquiet⟩ := hresumed.startAll hw visit env now
    w.workflow.nodes.length _ (w.resumeAll env now d.running d s).2
  unfold Walk.settle
  dsimp only
  refine ⟨hlively, fun hdue => .trans_right hle (hlower hdue), fun hover hdues => ?_⟩
  generalize (w.startAll visit env now w.workflow.nodes.length
    (w.resumeAll env now d.running d s).1 (w.resumeAll env now d.running d s).2).1 = last
    at hlively hquiet hover hdues
  have hrunning : last.running = [] := by
    rw [List.flatMap_eq_nil_iff] at hdues
    refine List.eq_nil_iff_forall_not_mem.mpr fun e he => ?_
    exact (hlively.running e he).2 (hdues e he)
  unfold Drive.isOver at hover
  rcases hquiet (Nat.le_add_right _ _) with hwait | hroom
  · rw [hwait, hrunning] at hover
    cases hover
  · have hpositive := w.workflow.positive
    unfold Walk.hasRoom at hroom
    rw [hrunning] at hroom
    simp only [List.length_nil, decide_eq_false_iff_not] at hroom
    exact hroom hpositive

/-- A visit under way can only return the outcome of its node, and waits for a time. -/
structure UnderWay (env : Environment I σ) (outcome : Nat → NodeOutcome) (i : Nat)
    (p : Task.Progress I Error NodeOutcome) : Prop where
  returns : ∀ o, p.Returns env o → o = outcome i
  going : p.value? = none
  waits : p.dues ≠ []

structure Sound (w : Walk I) (env : Environment I σ) (outcome : Nat → NodeOutcome)
    (d : Ongoing I) : Prop where
  tidy : w.Tidy outcome d
  running : ∀ e ∈ d.running, UnderWay env outcome e.1 e.2

theorem Sound.lively {w : Walk I} {env : Environment I σ} {outcome : Nat → NodeOutcome}
    {d : Ongoing I} (h : w.Sound env outcome d) : w.Lively d :=
  ⟨⟨outcome, h.tidy⟩, fun e he => ⟨(h.running e he).going, (h.running e he).waits⟩⟩

/-- Nothing is under way when a walk begins. -/
theorem sound_begin (w : Walk I) (hw : w.workflow.WellFormed) (env : Environment I σ)
    (outcome : Nat → NodeOutcome) : w.Sound env outcome w.begin :=
  ⟨w.tidy_begin hw outcome, fun _ h => absurd h List.not_mem_nil⟩

/-- Taking note of a visit keeps a walk sound. -/
theorem sound_note {w : Walk I} (hw : w.workflow.WellFormed) {env : Environment I σ}
    {outcome : Nat → NodeOutcome} {d : Ongoing I} (h : w.Tidy outcome d) (i : Nat)
    (hi : i ∈ d.running.map (·.1))
    (hothers : ∀ e ∈ d.running, e.1 ≠ i → UnderWay env outcome e.1 e.2)
    (q : Task.Progress I Error NodeOutcome) (hreturns : ∀ o, q.Returns env o → o = outcome i)
    (hwaits : q.Waits) : w.Sound env outcome (w.note d i q) := by
  have hupdated : ∀ e ∈ (d.update i q).running, e.1 ≠ i → UnderWay env outcome e.1 e.2 := by
    intro e he hne
    rcases d.mem_running_update i q e he with rfl | ⟨hold, _⟩
    · exact absurd rfl hne
    · exact hothers e hold hne
  unfold note
  cases hv : q.value? with
  | none =>
    refine ⟨h.update i q, fun e he => ?_⟩
    rcases d.mem_running_update i q e he with rfl | ⟨hold, hne⟩
    · exact ⟨hreturns, hv, hwaits hv⟩
    · exact hothers e hold hne
  | some o =>
    have houtcome : o = outcome i := by
      apply hreturns
      rw [eq_finished_of_value? q o hv]
      rfl
    have hkey : i ∈ (d.update i q).running.map (·.1) := by rwa [Drive.keys_update]
    rw [houtcome]
    refine ⟨(h.update i q).finish hw i hkey, fun e he => ?_⟩
    obtain ⟨hmem, hne⟩ := List.mem_filter.mp he
    exact hupdated e hmem (by simpa using hne)

/-- An outcome that a visit can only return is the one that is noted. -/
theorem Sound.goes {w : Walk I} (hw : w.workflow.WellFormed) {env : Environment I σ}
    {outcome : Nat → NodeOutcome} (visit : Nat → Task I Error NodeOutcome)
    (hvisit : ∀ i < w.workflow.nodes.length, ∀ o, (visit i).Returns env o → o = outcome i)
    (d : Ongoing I) (s : σ) (d' : Ongoing I) (s' : σ) (h : w.Sound env outcome d)
    (hgoes : w.Goes visit env (d, s) (d', s')) : w.Sound env outcome d' := by
  cases hgoes with
  | resume _ _ i p hp now =>
    have hunder := h.running (i, p) hp
    exact sound_note hw h.tidy i (List.mem_map_of_mem hp) (fun e he _ => h.running e he) _
      (fun o ho => hunder.returns o (p.resume_returns env now s o ho)) (p.resume_waits env now s)
  | start _ _ i rest hwait hroom now =>
    have hi : i < w.workflow.nodes.length := by
      refine h.tidy.ids_lt i ?_
      unfold Drive.ids
      rw [hwait]
      exact List.mem_cons_self
    refine sound_note hw (h.tidy.start i rest _ hwait) i ?_ (fun e he hne => ?_) _
      (fun o ho => hvisit i hi o ((visit i).advance_returns env now s o ho))
      ((visit i).advance_waits env now s)
    · exact List.mem_map_of_mem (List.mem_append_right _ (List.mem_singleton_self _))
    · rcases List.mem_append.mp he with hold | hnew
      · exact h.running e hold
      · exact absurd (congrArg Prod.fst (List.mem_singleton.mp hnew)) hne

/-- A walk that settles stays sound. -/
theorem Sound.settle {w : Walk I} (hw : w.workflow.WellFormed) {env : Environment I σ}
    {outcome : Nat → NodeOutcome} (visit : Nat → Task I Error NodeOutcome)
    (hvisit : ∀ i < w.workflow.nodes.length, ∀ o, (visit i).Returns env o → o = outcome i)
    (now : Nat) (d : Ongoing I) (h : w.Sound env outcome d) (s : σ) :
    w.Sound env outcome (w.settle visit env now d s).1 :=
  w.settle_keeps visit env (fun d _ => w.Sound env outcome d) (Sound.goes hw visit hvisit) now d
    h.tidy.keys_nodup s h

end Walk
end Reconciliation
