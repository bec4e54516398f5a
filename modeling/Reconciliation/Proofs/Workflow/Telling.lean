import Reconciliation.Proofs.Workflow.Chronicle

/-!
Chronicles of passes. A reconcile pass that marks nodes has a chronicle of the walk over all nodes
and one of the walk that deletes the marked ones; any other pass has the first alone. Every pass on
a clock is told by chronicles: step by step, its visits do what the visits with notices do.
-/
namespace Reconciliation

namespace Drive
variable {τ τ' : Type}

/-- The same walk, where something else is known of the visits. -/
def map (f : τ → τ') (d : Drive τ) : Drive τ' where
  waiting := d.waiting
  running := d.running.map fun e => (e.1, f e.2)
  completed := d.completed

theorem keys_map (f : τ → τ') (d : Drive τ) :
    (d.map f).running.map (·.1) = d.running.map (·.1) := by
  unfold map
  rw [List.map_map]
  rfl

theorem map_start (f : τ → τ') (d : Drive τ) (i : Nat) (t : τ) :
    (d.start i t).map f = (d.map f).start i (f t) := by
  unfold map start
  rw [List.map_append]
  rfl

theorem map_update (f : τ → τ') (d : Drive τ) (i : Nat) (t : τ) :
    (d.update i t).map f = (d.map f).update i (f t) := by
  unfold map update
  dsimp only
  rw [List.map_map, List.map_map]
  congr 1
  refine List.map_congr_left fun e _ => ?_
  by_cases he : e.1 = i <;> simp [he]

theorem mem_update_self (d : Drive τ) (i : Nat) (t : τ) (h : i ∈ d.running.map (·.1)) :
    (i, t) ∈ (d.update i t).running := by
  obtain ⟨e, he, rfl⟩ := List.mem_map.mp h
  exact List.mem_map.mpr ⟨e, he, if_pos rfl⟩

theorem isReleased_map (f : τ → τ') (d : Drive τ) (i : Nat) :
    (d.map f).isReleased i = d.isReleased i := by
  unfold map isReleased
  rw [List.any_map]
  rfl

theorem isOver_map (f : τ → τ') (d : Drive τ) : (d.map f).isOver = d.isOver := by
  unfold map isOver
  rw [List.isEmpty_map]

theorem mem_running_map (f : τ → τ') (d : Drive τ) (i : Nat) (t : τ')
    (h : (i, t) ∈ (d.map f).running) : ∃ t', (i, t') ∈ d.running ∧ f t' = t := by
  obtain ⟨e, he, heq⟩ := List.mem_map.mp h
  cases heq
  exact ⟨e.2, he, rfl⟩

end Drive

namespace Walk
variable {I : Interface} {σ τ τ' : Type}

theorem hasRoom_map (w : Walk I) (f : τ → τ') (d : Drive τ) :
    w.hasRoom (d.map f) = w.hasRoom d := by
  unfold hasRoom Drive.map
  rw [List.length_map]

theorem map_complete (f : τ → τ') (d : Drive τ) (i : Nat) (o : NodeOutcome) :
    (d.complete i o).map f = (d.map f).complete i o := by
  unfold Drive.complete Drive.map
  dsimp only
  rw [List.filter_map]
  rfl

/-- Which nodes a finished one releases does not depend on what is known of the visits. -/
theorem map_finish (w : Walk I) (f : τ → τ') (d : Drive τ) (i : Nat) (o : NodeOutcome) :
    (w.finish d i o).map f = w.finish (d.map f) i o := by
  have hreleased : w.releasedBy (d.map f) i o = w.releasedBy d i o := by
    unfold releasedBy
    rw [← map_complete]
    refine List.filter_congr fun j _ => ?_
    rw [Drive.isReleased_map]
    rfl
  rw [finish_eq, finish_eq, hreleased, ← map_complete]
  rfl

/-- Visits with notices and without them, side by side. -/
abbrev Paired (I : Interface) :=
  Drive (Task.Progress (I.noticing Node.Notice) Error NodeOutcome ×
    Task.Progress I Error NodeOutcome)

/-- A visit with notices tells, after these, of the one at its side. -/
def Matched (w : Walk I) (primary : ManagedObject) (ctx : Context) (i : Nat)
    (past : List Node.Notice)
    (pair : Task.Progress (I.noticing Node.Notice) Error NodeOutcome ×
      Task.Progress I Error NodeOutcome) : Prop :=
  pair.1.Narrates (w.Licence primary ctx i) (Node.Fits w.mode) past pair.2

/-- A chronicle of a walk, next to the walk without notices. -/
structure Told (w : Walk I) (env : Environment I σ) (primary : ManagedObject) (ctx : Context)
    (s₀ : σ) (journal : List Event) (d : Paired I) (s : σ) : Prop where
  chronicle : w.Chronicle env primary ctx s₀ journal (d.map Prod.fst) s
  narrates : ∀ e ∈ d.running, w.Matched primary ctx e.1 (noticesOf e.1 journal) e.2

/-- Some chronicle tells how a walk has come where it is. -/
def Tellable (w : Walk I) (env : Environment I σ) (primary : ManagedObject) (ctx : Context)
    (s₀ : σ) (d : Ongoing I) (s : σ) : Prop :=
  ∃ journal pairs, w.Told env primary ctx s₀ journal pairs s ∧ pairs.map Prod.snd = d

section
variable {w : Walk I} {env : Environment I σ} {primary : ManagedObject} {ctx : Context}
  {s₀ s : σ}

theorem tellable_begin : w.Tellable env primary ctx s₀ w.begin s₀ :=
  ⟨[], w.begin, ⟨.begin, fun _ h => absurd h List.not_mem_nil⟩, rfl⟩

theorem Told.keys_nodup (hw : w.workflow.WellFormed) {journal : List Event} {d : Paired I}
    (h : w.Told env primary ctx s₀ journal d s) : (d.running.map (·.1)).Nodup := by
  obtain ⟨_, htidy⟩ := (h.chronicle.accounts hw).tidy
  rw [← Drive.keys_map Prod.fst]
  exact htidy.keys_nodup

/-- Where a visit has come to its outcome, the chronicle goes on to the end of the node. -/
theorem Told.note {journal : List Event} {d : Paired I}
    (h : w.Told env primary ctx s₀ journal d s) (i : Nat)
    (p : Task.Progress (I.noticing Node.Notice) Error NodeOutcome)
    (p' : Task.Progress I Error NodeOutcome) (hp : (i, (p, p')) ∈ d.running) :
    w.Tellable env primary ctx s₀ (match p'.value? with
      | some o => w.finish (d.map Prod.snd) i o
      | none => d.map Prod.snd) s := by
  cases hvalue : p'.value? with
  | none => exact ⟨journal, d, h, rfl⟩
  | some o =>
    have hp₁ : p = .finished o := by
      refine eq_finished_of_value? p o ?_
      rw [← (h.narrates _ hp).value?]
      exact hvalue
    have hfinished : (i, .finished o) ∈ (d.map Prod.fst).running := by
      rw [← hp₁]
      exact List.mem_map.mpr ⟨_, hp, rfl⟩
    refine ⟨journal ++ [.finished i o], w.finish d i o, ⟨?_, ?_⟩, w.map_finish Prod.snd d i o⟩
    · rw [map_finish]
      exact .finish journal _ s h.chronicle i o hfinished
    · exact forall_running_finish (w.Matched primary ctx) d journal h.narrates w i o

/-- A visit on the clock goes on, and the visit with notices beside it does the same. -/
theorem Told.resume {journal : List Event} {d : Paired I}
    (h : w.Told env primary ctx s₀ journal d s) (i : Nat)
    (p : Task.Progress (I.noticing Node.Notice) Error NodeOutcome)
    (p' : Task.Progress I Error NodeOutcome) (hp : (i, (p, p')) ∈ d.running) (now : Nat) :
    w.Tellable env primary ctx s₀ (w.note (d.map Prod.snd) i (p'.resume env now s).1)
      (p'.resume env now s).2 := by
  obtain ⟨news, htold⟩ := (h.narrates _ hp).resume env now s []
  have hstep : w.Told env primary ctx s₀ (journal ++ news.map (.noticed i))
      (d.update i ((p.resume (env.noticing Node.Notice) now (s, [])).1, (p'.resume env now s).1))
      (p'.resume env now s).2 := by
    refine ⟨?_, forall_running_resume (w.Matched primary ctx) d journal h.narrates i _ news
      htold.narrates⟩
    rw [Drive.map_update]
    exact .resume journal _ s h.chronicle i p (List.mem_map.mpr ⟨_, hp, rfl⟩) now _ _ news
      htold.eq_of_nil
  have hnoted := hstep.note i _ _ (d.mem_update_self i _ (List.mem_map_of_mem hp))
  rw [Drive.map_update] at hnoted
  exact hnoted

/-- A waiting node starts on the clock and in the chronicle. -/
theorem Told.start (hw : w.workflow.WellFormed) {journal : List Event} {d : Paired I}
    (h : w.Told env primary ctx s₀ journal d s) (i : Nat) (rest : List Nat)
    (hwait : d.waiting = i :: rest) (hroom : w.hasRoom (d.map Prod.snd) = true) (now : Nat)
    (p' : Task.Progress I Error NodeOutcome)
    (hp' : p' = ((w.visit primary ctx i).advance env now s).1) :
    w.Tellable env primary ctx s₀ (w.note ((d.map Prod.snd).start i p') i p')
      ((w.visit primary ctx i).advance env now s).2 := by
  have haccounts := h.chronicle.accounts hw
  have hnew := haccounts.new_of_waiting hwait
  have hothers : ∀ e ∈ d.running, e.1 ≠ i := by
    rintro e he rfl
    exact hnew (haccounts.started_of_running (List.mem_map.mpr ⟨_, he, rfl⟩))
  obtain ⟨news, htold⟩ := (w.narrates_announced primary ctx i).advance env now s []
  have hstep : w.Told env primary ctx s₀ (journal ++ .started i :: news.map (.noticed i))
      (d.start i (((w.announced primary ctx i).advance (env.noticing Node.Notice) now (s, [])).1,
        p')) ((w.visit primary ctx i).advance env now s).2 := by
    rw [hp']
    refine ⟨?_, forall_running_start (w.Matched primary ctx) d journal h.narrates i _ news
      htold.narrates hothers (haccounts.silent i hnew)⟩
    rw [Drive.map_start]
    rw [hasRoom_map] at hroom
    exact .start journal _ s h.chronicle i rest hwait ((w.hasRoom_map _ d).trans hroom) now _ _
      news htold.eq_of_nil
  have hnoted := hstep.note i _ p' (List.mem_append_right _ (List.mem_singleton_self _))
  rw [Drive.map_start] at hnoted
  unfold Walk.note
  rw [Drive.update_self _ i p' ?_ (List.mem_append_right _ (List.mem_singleton_self _))]
  · exact hnoted
  · have hkeys := hstep.keys_nodup hw
    rw [← Drive.keys_map Prod.snd, Drive.map_start] at hkeys
    exact hkeys

/-- Whatever happens next in a walk is told. -/
theorem Tellable.goes (hw : w.workflow.WellFormed) (d : Ongoing I) (s : σ) (d' : Ongoing I)
    (s' : σ) (h : w.Tellable env primary ctx s₀ d s)
    (hgoes : w.Goes (w.visit primary ctx) env (d, s) (d', s')) :
    w.Tellable env primary ctx s₀ d' s' := by
  obtain ⟨journal, pairs, htold, rfl⟩ := h
  generalize hplain : pairs.map Prod.snd = plain at hgoes
  cases hgoes with
  | resume _ _ i p' hp now =>
    subst hplain
    obtain ⟨⟨p, _⟩, hmem, rfl⟩ := pairs.mem_running_map Prod.snd i p' hp
    exact htold.resume i p _ hmem now
  | start _ _ i rest hwait hroom now =>
    subst hplain
    exact htold.start hw i rest hwait hroom now _ rfl

theorem Tellable.settle (hw : w.workflow.WellFormed) (now : Nat) (d : Ongoing I)
    (h : w.Tellable env primary ctx s₀ d s) :
    w.Tellable env primary ctx s₀ (w.settle (w.visit primary ctx) env now d s).1
      (w.settle (w.visit primary ctx) env now d s).2 := by
  have hkeys : (d.running.map (·.1)).Nodup := by
    obtain ⟨journal, pairs, htold, rfl⟩ := h
    rw [Drive.keys_map]
    exact htold.keys_nodup hw
  exact w.settle_keeps (w.visit primary ctx) env (w.Tellable env primary ctx s₀)
    (Tellable.goes hw) now d hkeys s h

/-- A walk that is over has a chronicle that is. -/
theorem Tellable.over {d : Ongoing I} (h : w.Tellable env primary ctx s₀ d s)
    (hover : d.isOver = true) :
    ∃ journal announced, w.Chronicle env primary ctx s₀ journal announced s ∧
      announced.isOver = true ∧ announced.completed = d.completed := by
  obtain ⟨journal, pairs, htold, rfl⟩ := h
  refine ⟨journal, _, htold.chronicle, ?_, rfl⟩
  rw [Drive.isOver_map] at hover ⊢
  exact hover

end
end Walk

namespace Workflow
variable {I : Interface} {σ : Type}

/-- How far a pass has come. -/
inductive Stage where
  | walking
  | removing
  | over (r : PassResult)

/-- The journals of the walk over all nodes and of the walk that deletes marked nodes, in a pass
that began in a state, with how far it has come and the state it has come to. -/
inductive Chronicle (w : Workflow I) (env : Environment I σ) (mode : PassMode)
    (primary : ManagedObject) (ctx : Context) (s₀ : σ) :
    Stage → List Walk.Event → List Walk.Event → σ → Prop
  | walking (journal : List Walk.Event) (d : Walk.Announced I) (s : σ)
      (h : (w.walk mode).Chronicle env primary ctx s₀ journal d s) :
      Chronicle w env mode primary ctx s₀ .walking journal [] s
  | walked (journal : List Walk.Event) (d : Walk.Announced I) (s : σ)
      (h : (w.walk mode).Chronicle env primary ctx s₀ journal d s) (hover : d.isOver = true)
      (hlast : mode = .cleanup ∨ w.marked d.completed = []) :
      Chronicle w env mode primary ctx s₀ (.over (w.mainResult mode d.completed)) journal [] s
  | removing (journal : List Walk.Event) (d : Walk.Announced I) (s₁ : σ)
      (h : (w.walk .reconcile).Chronicle env primary ctx s₀ journal d s₁)
      (hover : d.isOver = true) (hmode : mode = .reconcile) (hmarked : w.marked d.completed ≠ [])
      (removal : List Walk.Event) (d' : Walk.Announced I) (s : σ)
      (h' : (w.removal (w.marked d.completed)).Chronicle env primary ctx s₁ removal d' s) :
      Chronicle w env mode primary ctx s₀ .removing journal removal s
  | removed (journal : List Walk.Event) (d : Walk.Announced I) (s₁ : σ)
      (h : (w.walk .reconcile).Chronicle env primary ctx s₀ journal d s₁)
      (hover : d.isOver = true) (hmode : mode = .reconcile) (hmarked : w.marked d.completed ≠ [])
      (removal : List Walk.Event) (d' : Walk.Announced I) (s : σ)
      (h' : (w.removal (w.marked d.completed)).Chronicle env primary ctx s₁ removal d' s)
      (hover' : d'.isOver = true) :
      Chronicle w env mode primary ctx s₀
        (.over (w.removalResult (w.mainResult .reconcile d.completed) d'.completed)) journal
        removal s

/-- The first journal of a pass is that of its walk over all nodes. -/
theorem Chronicle.main {w : Workflow I} {env : Environment I σ} {mode : PassMode}
    {primary : ManagedObject} {ctx : Context} {s₀ s : σ} {stage : Stage}
    {journal removal : List Walk.Event}
    (h : w.Chronicle env mode primary ctx s₀ stage journal removal s) :
    ∃ d s₁, (w.walk mode).Chronicle env primary ctx s₀ journal d s₁ ∧
      (stage ≠ .walking → d.isOver = true) := by
  cases h with
  | walking _ d _ h => exact ⟨d, s, h, fun hne => absurd rfl hne⟩
  | walked _ d _ h hover => exact ⟨d, s, h, fun _ => hover⟩
  | removing _ d s₁ h hover hmode => exact ⟨d, s₁, hmode ▸ h, fun _ => hover⟩
  | removed _ d s₁ h hover hmode => exact ⟨d, s₁, hmode ▸ h, fun _ => hover⟩

end Workflow

namespace Pass
variable {I : Interface} {σ : Type}

/-- A pass whose walks so far are told by chronicles. -/
inductive Told (w : Workflow I) (env : Environment I σ) (mode : PassMode)
    (primary : ManagedObject) (ctx : Context) (s₀ : σ) : Pass I → σ → Prop
  | walking (d : Walk.Ongoing I) (s : σ) (h : (w.walk mode).Tellable env primary ctx s₀ d s) :
      Told w env mode primary ctx s₀ (w.walking mode primary ctx d) s
  | removing (journal : List Walk.Event) (d₁ : Walk.Announced I) (s₁ : σ)
      (h : (w.walk .reconcile).Chronicle env primary ctx s₀ journal d₁ s₁)
      (hover : d₁.isOver = true) (hmode : mode = .reconcile)
      (hmarked : w.marked d₁.completed ≠ []) (d : Walk.Ongoing I) (s : σ)
      (h' : (w.removal (w.marked d₁.completed)).Tellable env primary ctx s₁ d s) :
      Told w env mode primary ctx s₀ (w.removing d₁.completed primary ctx d) s

/-- What a pass has come to is told by chronicles. -/
def Tells (w : Workflow I) (env : Environment I σ) (mode : PassMode) (primary : ManagedObject)
    (ctx : Context) (s₀ : σ) : Standing (Pass I) PassResult × σ → Prop
  | (.going q, s) => Told w env mode primary ctx s₀ q s
  | (.over r, s) =>
    ∃ journal removal, w.Chronicle env mode primary ctx s₀ (.over r) journal removal s

section
variable {w : Workflow I} (hw : w.WellFormed) {env : Environment I σ} {mode : PassMode}
  {primary : ManagedObject} {ctx : Context} {s₀ : σ}
include hw

/-- The second walk of a reconcile pass has a chronicle that begins where that of the first one
ends. -/
theorem tells_removing {journal : List Walk.Event} {d₁ : Walk.Announced I} {s₁ : σ}
    (h : (w.walk .reconcile).Chronicle env primary ctx s₀ journal d₁ s₁)
    (hover : d₁.isOver = true) (hmode : mode = .reconcile)
    (hmarked : w.marked d₁.completed ≠ []) (now : Nat) (d : Walk.Ongoing I) (s : σ)
    (h' : (w.removal (w.marked d₁.completed)).Tellable env primary ctx s₁ d s) :
    Tells w env mode primary ctx s₀
      ((w.removing d₁.completed primary ctx d).settle env now s) := by
  have hsettled := h'.settle hw now
  cases hfinal : (removed w env primary ctx now d s d₁.completed).1.isOver with
  | false =>
    rw [settle_removing_going w env primary ctx now d s _ hfinal]
    exact .removing journal d₁ s₁ h hover hmode hmarked _ _ hsettled
  | true =>
    rw [settle_removing_over w env primary ctx now d s _ hfinal]
    obtain ⟨removal, d', hremoval, hover', hcompleted⟩ := hsettled.over hfinal
    have hall := Workflow.Chronicle.removed journal d₁ s₁ h hover hmode hmarked removal d' _
      hremoval hover'
    rw [hcompleted] at hall
    exact ⟨journal, removal, hall⟩

/-- The first walk has its chronicle; if it leaves marked nodes, the second one begins at the same
time. -/
theorem tells_walking (now : Nat) (d : Walk.Ongoing I) (s : σ)
    (h : (w.walk mode).Tellable env primary ctx s₀ d s) :
    Tells w env mode primary ctx s₀ ((w.walking mode primary ctx d).settle env now s) := by
  have hsettled := h.settle hw now
  cases hfinal : (walked w env primary ctx now d s mode).1.isOver with
  | false =>
    rw [settle_walking_going w env primary ctx now d s mode hfinal]
    exact .walking _ _ hsettled
  | true =>
    obtain ⟨journal, d₁, hchronicle, hover, hcompleted⟩ := hsettled.over hfinal
    by_cases hlast : mode = .cleanup ∨
        w.marked (walked w env primary ctx now d s mode).1.completed = []
    · rw [settle_walking_last w env primary ctx now d s mode hfinal hlast]
      have hall := Workflow.Chronicle.walked journal d₁ _ hchronicle hover
        (hcompleted ▸ hlast)
      rw [hcompleted] at hall
      exact ⟨journal, [], hall⟩
    · rw [not_or] at hlast
      obtain rfl : mode = .reconcile := by
        cases mode with
        | reconcile => rfl
        | cleanup => exact absurd rfl hlast.1
      rw [settle_walking_marked w env primary ctx now d s hfinal hlast.2]
      unfold walked at hlast ⊢
      rw [← hcompleted] at hlast ⊢
      exact tells_removing hw hchronicle hover rfl hlast.2 now _ _ Walk.tellable_begin

theorem Told.settle {p : Pass I} {s : σ} (h : Told w env mode primary ctx s₀ p s) (now : Nat) :
    Tells w env mode primary ctx s₀ (p.settle env now s) := by
  cases h with
  | walking d _ h => exact tells_walking hw now d s h
  | removing journal d₁ s₁ h hover hmode hmarked d _ h' =>
    exact tells_removing hw h hover hmode hmarked now d s h'

/-- The result of a pass is told by chronicles that lead to the same state. -/
theorem Told.finish (fuel : Nat) {p : Pass I} {s : σ} (h : Told w env mode primary ctx s₀ p s)
    (now : Nat) (r : PassResult) (now' : Nat) (s' : σ)
    (hr : p.finish env fuel now s = (some r, now', s')) :
    ∃ journal removal, w.Chronicle env mode primary ctx s₀ (.over r) journal removal s' := by
  induction fuel generalizing p now s with
  | zero => cases hr
  | succ fuel ih =>
    have htells := h.settle hw now
    unfold Pass.finish at hr
    rcases hsettle : p.settle env now s with ⟨q | r', s₁⟩
    · rw [hsettle] at htells hr
      dsimp only at hr
      cases hdue : q.dues.min? with
      | some due =>
        rw [hdue] at hr
        exact ih htells due hr
      | none =>
        rw [hdue] at hr
        cases hr
    · rw [hsettle] at htells hr
      cases hr
      exact htells

end

/-- Whatever is answered and when, a pass comes to a result, and chronicles tell how. -/
theorem finish_told {w : Workflow I} (hw : w.WellFormed) (env : Environment I σ) (mode : PassMode)
    (primary : ManagedObject) (ctx : Context) (now : Nat) (s : σ) :
    (∃ fuel r, ((w.pass mode primary ctx).finish env fuel now s).1 = some r) ∧
      ∀ fuel r now' s', (w.pass mode primary ctx).finish env fuel now s = (some r, now', s') →
        ∃ journal removal, w.Chronicle env mode primary ctx s (.over r) journal removal s' := by
  have hunderway : Underway w primary ctx mode (w.pass mode primary ctx) :=
    .walking mode _ ((w.walk mode).lively_begin hw)
  have htold : Told w env mode primary ctx s (w.pass mode primary ctx) s :=
    .walking _ s Walk.tellable_begin
  exact ⟨hunderway.exists_finish hw now s,
    fun fuel r now' s' hr => htold.finish hw fuel now r now' s' hr⟩

end Pass
end Reconciliation
