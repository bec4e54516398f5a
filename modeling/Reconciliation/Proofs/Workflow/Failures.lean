import Reconciliation.Proofs.Workflow.Calls
import Reconciliation.Proofs.Workflow.Listing
import Reconciliation.Proofs.Workflow.Muting

/-!
What is heard of a pass. The log of a walk is made up of what each of its visits has given, in any
interleaving, and a visit that is over has given exactly what goes with its outcome. So the errors
of a pass are due to the calls that failed in the work on its nodes, those of both walks together.
-/
namespace Reconciliation

namespace Drive
variable {τ : Type}

/-- The visit of the node has begun. -/
def Begun (d : Drive τ) (i : Nat) : Prop := i ∈ d.running.map (·.1) ++ d.completed.map (·.1)

theorem begun_update_iff (d : Drive τ) (i : Nat) (t : τ) (j : Nat) :
    (d.update i t).Begun j ↔ d.Begun j := by
  unfold Begun
  rw [keys_update]
  rfl

theorem begun_start_iff (d : Drive τ) (i : Nat) (t : τ) (j : Nat) :
    (d.start i t).Begun j ↔ j = i ∨ d.Begun j := by
  have hkeys : (d.start i t).running.map (·.1) = d.running.map (·.1) ++ [i] := List.map_append
  have hcompleted : (d.start i t).completed = d.completed := rfl
  unfold Begun
  rw [hkeys, hcompleted]
  simp only [List.mem_append, List.mem_singleton]
  tauto

end Drive

namespace Walk
variable {I : Interface} {N σ τ : Type}

theorem begun_finish_iff (w : Walk I) (d : Drive τ) (i : Nat) (o : NodeOutcome)
    (hi : d.Begun i) (j : Nat) : (w.finish d i o).Begun j ↔ d.Begun j := by
  unfold Drive.Begun at hi ⊢
  unfold finish
  simp only [List.map_append, List.mem_append, List.map_cons, List.map_nil, List.mem_singleton,
    List.mem_map, List.mem_filter, decide_eq_true_eq] at hi ⊢
  grind

theorem begun_note_iff (w : Walk I) (d : Ongoing I) (i : Nat)
    (q : Task.Progress I Error NodeOutcome) (hi : d.Begun i) (j : Nat) :
    (w.note d i q).Begun j ↔ d.Begun j := by
  unfold note
  cases q.value? with
  | none => exact d.begun_update_iff i q j
  | some o =>
    rw [begun_finish_iff w _ i o ((d.begun_update_iff i q i).mpr hi), d.begun_update_iff]

/-- Each visit has given a part of the log, and what else it gives goes with that. -/
structure Heard (w : Walk (I.noticing N)) (primary : ManagedObject) (ctx : Context)
    (before log : List N) (past : Nat → List N) (d : Ongoing (I.noticing N)) : Prop where
  lively : w.Lively d
  running : ∀ e ∈ d.running, ∀ rest o, e.2.Gives rest o →
    (w.visit primary ctx e.1).Gives (past e.1 ++ rest) o
  completed : ∀ e ∈ d.completed, (w.visit primary ctx e.1).Gives (past e.1) e.2
  log : ∀ n, n ∈ log ↔ n ∈ before ∨ ∃ i, d.Begun i ∧ n ∈ past i

section
variable {w : Walk (I.noticing N)} {primary : ManagedObject} {ctx : Context}
  {before log : List N} {past : Nat → List N} {d : Ongoing (I.noticing N)}

theorem heard_begin (hw : w.workflow.WellFormed) (log : List N) :
    w.Heard primary ctx log log (fun _ => []) w.begin where
  lively := w.lively_begin hw
  running _ h := absurd h List.not_mem_nil
  completed _ h := absurd h List.not_mem_nil
  log _ := (or_iff_left fun ⟨_, _, h⟩ => List.not_mem_nil h).symm

/-- What the visit has given so far is part of the log, and what it gives from now on goes with
that. -/
theorem heard_note {i : Nat} {q : Task.Progress (I.noticing N) Error NodeOutcome}
    (hlively : w.Lively (w.note d i q)) (hi : d.Begun i)
    (hothers : ∀ e ∈ d.running, e.1 ≠ i → ∀ rest o, e.2.Gives rest o →
      (w.visit primary ctx e.1).Gives (past e.1 ++ rest) o)
    (hcompleted : ∀ e ∈ d.completed, (w.visit primary ctx e.1).Gives (past e.1) e.2)
    (hlog : ∀ n, n ∈ log ↔ n ∈ before ∨ ∃ i, d.Begun i ∧ n ∈ past i)
    (hq : ∀ rest o, q.Gives rest o → (w.visit primary ctx i).Gives (past i ++ rest) o) :
    w.Heard primary ctx before log past (w.note d i q) := by
  have hupdated : ∀ e ∈ (d.update i q).running, ∀ rest o, e.2.Gives rest o →
      (w.visit primary ctx e.1).Gives (past e.1 ++ rest) o := by
    intro e he
    rcases d.mem_running_update i q e he with rfl | ⟨hold, hne⟩
    · exact hq
    · exact hothers e hold hne
  refine ⟨hlively, fun e he => ?_, fun e he => ?_, fun n => ?_⟩
  · unfold note at he
    cases hvalue : q.value? with
    | none =>
      rw [hvalue] at he
      exact hupdated e he
    | some o =>
      rw [hvalue] at he
      exact hupdated e (List.mem_filter.mp he).1
  · unfold note at he
    cases hvalue : q.value? with
    | none =>
      rw [hvalue] at he
      exact hcompleted e he
    | some o =>
      rw [hvalue] at he
      rcases List.mem_append.mp he with hold | hnew
      · exact hcompleted e hold
      · obtain rfl := eq_finished_of_value? q o hvalue
        have hdone := hq [] o ⟨rfl, rfl⟩
        rw [List.append_nil] at hdone
        rw [List.mem_singleton.mp hnew]
        exact hdone
  · rw [hlog]
    simp only [w.begun_note_iff d i q hi]

/-- What a visit adds to the log is added to its part. -/
theorem mem_extended_iff (hlog : ∀ n, n ∈ log ↔ n ∈ before ∨ ∃ j, d.Begun j ∧ n ∈ past j) (i : Nat)
    (old news : List N) (hold : ∀ n, n ∈ old ↔ d.Begun i ∧ n ∈ past i) (n : N) :
    n ∈ log ++ news ↔ n ∈ before ∨
      ∃ j, (j = i ∨ d.Begun j) ∧ n ∈ Function.update past i (old ++ news) j := by
  have hself : Function.update past i (old ++ news) i = old ++ news := Function.update_self i _ past
  have hother : ∀ j, j ≠ i → Function.update past i (old ++ news) j = past j :=
    fun j hj => Function.update_of_ne hj _ past
  rw [List.mem_append, hlog, or_assoc]
  refine or_congr_right ⟨?_, ?_⟩
  · rintro (⟨j, hj, hn⟩ | hnew)
    · by_cases hji : j = i
      · subst hji
        exact ⟨j, Or.inl rfl, hself.symm ▸ List.mem_append_left _ ((hold n).mpr ⟨hj, hn⟩)⟩
      · exact ⟨j, Or.inr hj, (hother j hji).symm ▸ hn⟩
    · exact ⟨i, Or.inl rfl, hself.symm ▸ List.mem_append_right _ hnew⟩
  · rintro ⟨j, hj, hn⟩
    by_cases hji : j = i
    · subst hji
      rw [hself] at hn
      exact (List.mem_append.mp hn).imp_left fun hn => ⟨j, (hold n).mp hn⟩
    · rw [hother j hji] at hn
      exact Or.inl ⟨j, hj.resolve_left hji, hn⟩

/-- No node that runs or waits has finished, and none that waits runs. -/
theorem Lively.apart (h : w.Lively d) :
    (∀ e ∈ d.running, ∀ e' ∈ d.completed, e'.1 ≠ e.1) ∧
      ∀ i ∈ d.waiting, ¬ d.Begun i := by
  obtain ⟨_, htidy⟩ := h.tidy
  have hnodup := htidy.nodup
  unfold Drive.ids at hnodup
  obtain ⟨_, hrest, hwaiting⟩ := List.nodup_append.mp hnodup
  obtain ⟨_, _, hrunning⟩ := List.nodup_append.mp hrest
  refine ⟨fun e he e' he' heq => ?_, fun i hi hbegun => ?_⟩
  · exact hrunning e.1 (List.mem_map_of_mem he) e'.1 (List.mem_map_of_mem he') heq.symm
  · exact hwaiting i hi i hbegun rfl

/-- A visit goes on, and what it gives is added to its part of the log. -/
theorem Heard.resume (hw : w.workflow.WellFormed) (h : w.Heard primary ctx before log past d)
    (env : Environment I σ) (i : Nat) (p : Task.Progress (I.noticing N) Error NodeOutcome)
    (hp : (i, p) ∈ d.running) (now : Nat) (s : σ) :
    ∃ past', w.Heard primary ctx before (p.resume (env.noticing N) now (s, log)).2.2 past'
      (w.note d i (p.resume (env.noticing N) now (s, log)).1) := by
  obtain ⟨news, hnews, hgives⟩ := p.resume_gives env now s log
  have hbegun : d.Begun i := List.mem_append_left _ (List.mem_map_of_mem hp)
  have hother : ∀ j, j ≠ i → Function.update past i (past i ++ news) j = past j :=
    fun j hj => Function.update_of_ne hj _ past
  have hself : Function.update past i (past i ++ news) i = past i ++ news :=
    Function.update_self i _ past
  -- The part of the resumed visit grows, and the other parts stay.
  refine ⟨Function.update past i (past i ++ news), ?_⟩
  refine heard_note (h.lively.resume hw _ now _ i p hp) hbegun (fun e he hne => ?_) (fun e he => ?_)
    (fun n => ?_) fun rest o hrest => ?_
  · rw [hother e.1 hne]
    exact h.running e he
  · rw [hother e.1 (h.lively.apart.1 (i, p) hp e he)]
    exact h.completed e he
  · have hbegun_iff : ∀ j, j = i ∨ d.Begun j ↔ d.Begun j :=
      fun j => or_iff_right_of_imp fun hji => hji ▸ hbegun
    rw [hnews, mem_extended_iff h.log i (past i) news (fun n => (and_iff_right hbegun).symm)]
    simp only [hbegun_iff]
  · rw [hself, List.append_assoc]
    exact h.running (i, p) hp _ o (hgives rest o hrest)

/-- A visit begins with an empty part of the log. -/
theorem Heard.start (hw : w.workflow.WellFormed) (h : w.Heard primary ctx before log past d)
    (env : Environment I σ) (i : Nat) (rest : List Nat) (hwait : d.waiting = i :: rest) (now : Nat)
    (s : σ) :
    ∃ past', w.Heard primary ctx before
      ((w.visit primary ctx i).advance (env.noticing N) now (s, log)).2.2 past'
      (w.note (d.start i ((w.visit primary ctx i).advance (env.noticing N) now (s, log)).1) i
        ((w.visit primary ctx i).advance (env.noticing N) now (s, log)).1) := by
  obtain ⟨news, hnews, hgives⟩ := (w.visit primary ctx i).advance_gives env now s log
  have hnew : ¬ d.Begun i := h.lively.apart.2 i (hwait ▸ List.mem_cons_self)
  have hother : ∀ j, d.Begun j → Function.update past i news j = past j := by
    intro j hj
    refine Function.update_of_ne ?_ _ past
    rintro rfl
    exact hnew hj
  have hself : Function.update past i news i = news := Function.update_self i _ past
  have hlively := h.lively.start hw i rest hwait _
    ((w.visit primary ctx i).advance_waits (env.noticing N) now (s, log)) (env.noticing N)
  refine ⟨Function.update past i news, heard_note hlively.1
    ((d.begun_start_iff i _ i).mpr (Or.inl rfl)) (fun e he hne => ?_) (fun e he => ?_)
    (fun n => ?_) fun rest o hrest => ?_⟩
  · rcases List.mem_append.mp he with hold | hlast
    · rw [hother e.1 (List.mem_append_left _ (List.mem_map_of_mem hold))]
      exact h.running e hold
    · exact absurd (congrArg Prod.fst (List.mem_singleton.mp hlast)) hne
  · rw [hother e.1 (List.mem_append_right _ (List.mem_map_of_mem he))]
    exact h.completed e he
  · simp only [d.begun_start_iff]
    rw [hnews]
    exact mem_extended_iff h.log i [] news (fun n => by simp [hnew]) n
  · rw [hself]
    exact hgives rest o hrest

/-- Everything that goes on in a walk adds to the part of its visit. -/
theorem Heard.settle (hw : w.workflow.WellFormed) (h : w.Heard primary ctx before log past d)
    (env : Environment I σ) (now : Nat) (s : σ) :
    ∃ past', w.Heard primary ctx before
      (w.settle (w.visit primary ctx) (env.noticing N) now d (s, log)).2.2 past'
      (w.settle (w.visit primary ctx) (env.noticing N) now d (s, log)).1 := by
  refine w.settle_keeps (w.visit primary ctx) (env.noticing N)
    (fun d s => ∃ past, w.Heard primary ctx before s.2 past d) (fun d s d' s' hd hgoes => ?_) now d
    h.lively.keys_nodup (s, log) ⟨past, h⟩
  obtain ⟨past, hd⟩ := hd
  cases hgoes with
  | resume _ _ i p hp now => exact hd.resume hw env i p hp now s.1
  | start _ _ i rest hwait _ now => exact hd.start hw env i rest hwait now s.1

end

/-- When a walk is over, its errors are due to what failed in the work on its nodes. -/
theorem Heard.blames {w : Walk (I.noticing FailedCall)} {primary : ManagedObject} {ctx : Context}
    {before log : List FailedCall} {past : Nat → List FailedCall}
    {d : Ongoing (I.noticing FailedCall)} (h : w.Heard primary ctx before log past d)
    (hover : d.isOver = true)
    (hfaults : ∀ i < w.workflow.nodes.length, Node.Faults (w.visit primary ctx i))
    {errors : Error → Prop} (hbefore : Blames before errors) :
    Blames log fun e => errors e ∨ ∃ i, (i, .errored e) ∈ d.completed := by
  obtain ⟨_, htidy⟩ := h.lively.tidy
  have hids := (htidy.finished hover).ids_lt
  have hbegun : ∀ i, d.Begun i ↔ ∃ o, (i, o) ∈ d.completed := by
    unfold Drive.isOver at hover
    rw [Bool.and_eq_true, List.isEmpty_iff, List.isEmpty_iff] at hover
    unfold Drive.Begun
    rw [hover.2]
    simp
  -- A cause is the part of one finished visit, or all that went before.
  refine Blames.of_causes (fun c : Option (Nat × NodeOutcome) => c.elim before fun e => past e.1)
    (fun c => c.elim errors fun e x => e.2 = .errored x)
    (fun c => ∀ e, c = some e → e ∈ d.completed) ?_ ?_ ?_
  · rintro (_ | e) he
    · exact hbefore
    · have hmem := he e rfl
      exact hfaults e.1 (hids e hmem) (past e.1) e.2 (h.completed e hmem)
  · intro x
    constructor
    · rintro (hx | ⟨i, hi⟩)
      · exact ⟨none, nofun, hx⟩
      · exact ⟨some (i, .errored x), fun _ heq => Option.some.inj heq ▸ hi, rfl⟩
    · rintro ⟨_ | ⟨i, o⟩, hc, hx⟩
      · exact Or.inl hx
      · obtain rfl : o = .errored x := hx
        exact Or.inr ⟨i, hc _ rfl⟩
  · intro x
    rw [h.log]
    constructor
    · rintro (hx | ⟨i, hi, hx⟩)
      · exact ⟨none, nofun, hx⟩
      · obtain ⟨o, ho⟩ := (hbegun i).mp hi
        exact ⟨some (i, o), fun _ heq => Option.some.inj heq ▸ ho, hx⟩
    · rintro ⟨_ | ⟨i, o⟩, hc, hx⟩
      · exact Or.inl hx
      · exact Or.inr ⟨i, (hbegun i).mpr ⟨o, hc _ rfl⟩, hx⟩

end Walk

namespace PassResult

/-- The errors of a result. -/
def Errs (r : PassResult) (e : Error) : Prop := ∃ name, (name, e) ∈ r.errored

theorem errs_iff (r : PassResult) (e : Error) :
    r.Errs e ↔ ∃ name, (name, .errored e) ∈ r.recorded :=
  exists_congr fun name => r.mem_errored name e

end PassResult

namespace Workflow
variable {I : Interface} (w : Workflow I)

/-- The result of the walk over all nodes has the errors of the outcomes, and no others. -/
theorem errs_mainResult_iff (mode : PassMode) (completed : List (Nat × NodeOutcome)) (e : Error) :
    (w.mainResult mode completed).Errs e ↔ ∃ i, (i, .errored e) ∈ completed := by
  rw [PassResult.errs_iff]
  have hmain : ∀ name, (name, .errored e) ∈
      (w.recordAll (w.blankResult mode) (completed.filter fun e => !e.2.isDeleted)).recorded ↔
        ∃ i, (i, .errored e) ∈ completed ∧ w.nameAt i = name := by
    intro name
    have hblank : (w.blankResult mode).recorded = [] := rfl
    rw [recorded_recordAll, hblank, List.nil_append, List.mem_map]
    constructor
    · rintro ⟨⟨i, o⟩, hmem, heq⟩
      cases heq
      exact ⟨i, (List.mem_filter.mp hmem).1, rfl⟩
    · rintro ⟨i, hmem, rfl⟩
      exact ⟨(i, .errored e), List.mem_filter.mpr ⟨hmem, rfl⟩, rfl⟩
  have hrecorded : ∀ name, (name, .errored e) ∈ (w.mainResult mode completed).recorded ↔
      ∃ i, (i, .errored e) ∈ completed ∧ w.nameAt i = name := by
    intro name
    rw [← hmain]
    unfold mainResult
    cases mode with
    | cleanup => rfl
    | reconcile =>
      dsimp only
      rw [recorded_recordAll, List.mem_append, or_iff_left]
      intro hinactive
      obtain ⟨e', he', heq⟩ := List.mem_map.mp hinactive
      obtain ⟨i, _, rfl⟩ := List.mem_map.mp he'
      cases heq
  simp only [hrecorded]
  exact ⟨fun ⟨_, i, hi, _⟩ => ⟨i, hi⟩, fun ⟨i, hi⟩ => ⟨_, i, hi, rfl⟩⟩

/-- The errors of both walks are in the result; the removal drops none of the earlier ones. -/
theorem errs_removalResult_iff (before : PassResult) (completed : List (Nat × NodeOutcome))
    (e : Error) : (w.removalResult before completed).Errs e ↔
      before.Errs e ∨ ∃ i, (i, .errored e) ∈ completed := by
  rw [PassResult.errs_iff, PassResult.errs_iff]
  unfold removalResult
  rw [recorded_recordAll]
  constructor
  · rintro ⟨name, hmem⟩
    rcases List.mem_append.mp hmem with hold | hnew
    · exact Or.inl ⟨name, hold⟩
    · obtain ⟨e', he', heq⟩ := List.mem_map.mp hnew
      obtain ⟨⟨i, o⟩, ho, rfl⟩ := List.mem_map.mp he'
      cases o with
      | errored x =>
        cases heq
        exact Or.inr ⟨i, ho⟩
      | _ => cases heq
  · rintro (⟨name, hold⟩ | ⟨i, hi⟩)
    · exact ⟨name, List.mem_append_left _ hold⟩
    · refine ⟨w.nameAt i, List.mem_append_right _ (List.mem_map.mpr ⟨(i, .errored e), ?_, rfl⟩)⟩
      exact List.mem_map.mpr ⟨_, hi, rfl⟩

end Workflow

namespace Pass
variable {I : Interface} {N σ : Type}

/-- What a pass with notices has come to, and what has been heard of it till then. It goes on at any
times, in any states of the environment. -/
inductive Heard (env : Environment I σ) (p : Pass (I.noticing N)) :
    List N → Standing (Pass (I.noticing N)) PassResult → Prop
  | begin : Heard env p [] (.going p)
  | settle (log : List N) (q : Pass (I.noticing N)) (h : Heard env p log (.going q)) (now : Nat)
      (s : σ) (standing : Standing (Pass (I.noticing N)) PassResult) (s' : σ) (log' : List N)
      (hrun : q.settle (env.noticing N) now (s, log) = (standing, s', log')) :
      Heard env p log' standing

/-- Whatever a muted pass has come to, the pass with notices has been heard to come to. -/
theorem Course.heard {env : Environment I σ} {p' : Pass (I.noticing N)} {p : Pass I}
    (hp : p'.Mutes p) {standing : Standing (Pass I) PassResult} {calls : List I.Call}
    (h : p.Course env standing calls) :
    ∃ log standing', p'.Heard env log standing' ∧ Agree standing' standing := by
  induction h with
  | begin => exact ⟨[], _, .begin, .going p' p hp⟩
  | settle q calls _ now s ih =>
    obtain ⟨log, standing', hheard, hagree⟩ := ih
    cases hagree with
    | going q' _ hq =>
      refine ⟨_, _, .settle log q' hheard now s _ _ _ rfl, ?_⟩
      have hstanding := congrArg Prod.fst (q.settle_noting env now (s, calls))
      rw [show (q.settle env.noting now (s, calls)).1 = (q.settle env now s).1 from hstanding]
      exact (hq.settle env now s log).1

/-- A pass whose failed calls are all accounted for: by its walks so far or, if it is over, by the
errors of its result. -/
inductive Charged (w : Workflow (I.noticing FailedCall)) (mode : PassMode)
    (primary : ManagedObject) (ctx : Context) :
    List FailedCall → Standing (Pass (I.noticing FailedCall)) PassResult → Prop
  | walking (log : List FailedCall) (past : Nat → List FailedCall)
      (d : Walk.Ongoing (I.noticing FailedCall))
      (h : (w.walk mode).Heard primary ctx [] log past d) :
      Charged w mode primary ctx log (.going (w.walking mode primary ctx d))
  | removing (completed : List (Nat × NodeOutcome)) (before log : List FailedCall)
      (past : Nat → List FailedCall) (d : Walk.Ongoing (I.noticing FailedCall))
      (hbefore : Blames before (w.mainResult .reconcile completed).Errs)
      (h : (w.removal (w.marked completed)).Heard primary ctx before log past d) :
      Charged w mode primary ctx log (.going (w.removing completed primary ctx d))
  | ended (log : List FailedCall) (r : PassResult) (h : Blames log r.Errs) :
      Charged w mode primary ctx log (.over r)

section
variable {w : Workflow (I.noticing FailedCall)} (hw : w.WellFormed) {mode : PassMode}
  {primary : ManagedObject} {ctx : Context}
  (hfaults : ∀ n ∈ w.nodes, ∀ mode, Node.Faults (n.node.visit mode primary ctx))

include hfaults in
theorem visit_faults (walk : Walk (I.noticing FailedCall)) (hwalk : walk.workflow = w) (i : Nat)
    (hi : i < walk.workflow.nodes.length) : Node.Faults (walk.visit primary ctx i) := by
  have hnode : walk.workflow.nodeAt? i = some walk.workflow.nodes[i] := List.getElem?_eq_getElem hi
  unfold Walk.visit
  rw [hnode]
  exact hfaults _ (hwalk ▸ List.getElem_mem hi) walk.mode

include hw hfaults

/-- The walk that deletes the marked nodes adds its own failures to those before it. -/
theorem settle_removing_charged (completed : List (Nat × NodeOutcome))
    (before log : List FailedCall) (past : Nat → List FailedCall)
    (d : Walk.Ongoing (I.noticing FailedCall))
    (hbefore : Blames before (w.mainResult .reconcile completed).Errs)
    (h : (w.removal (w.marked completed)).Heard primary ctx before log past d)
    (env : Environment I σ) (now : Nat) (s : σ) :
    Charged w mode primary ctx
      ((w.removing completed primary ctx d).settle (env.noticing FailedCall) now (s, log)).2.2
      ((w.removing completed primary ctx d).settle (env.noticing FailedCall) now (s, log)).1 := by
  obtain ⟨past', hsettled⟩ := h.settle hw env now s
  cases hfinal : (removed w (env.noticing FailedCall) primary ctx now d (s, log)
      completed).1.isOver with
  | false =>
    rw [settle_removing_going w _ primary ctx now d _ completed hfinal]
    exact .removing completed before _ past' _ hbefore hsettled
  | true =>
    rw [settle_removing_over w _ primary ctx now d _ completed hfinal]
    have hblames := hsettled.blames hfinal (visit_faults hfaults _ rfl) hbefore
    exact .ended _ _ (hblames.congr (w.errs_removalResult_iff _ _) fun _ => Iff.rfl)

/-- When the walk over all nodes is over, the removal of marked nodes begins at the same time. -/
theorem settle_walking_charged (log : List FailedCall) (past : Nat → List FailedCall)
    (d : Walk.Ongoing (I.noticing FailedCall)) (h : (w.walk mode).Heard primary ctx [] log past d)
    (env : Environment I σ) (now : Nat) (s : σ) :
    Charged w mode primary ctx
      ((w.walking mode primary ctx d).settle (env.noticing FailedCall) now (s, log)).2.2
      ((w.walking mode primary ctx d).settle (env.noticing FailedCall) now (s, log)).1 := by
  obtain ⟨past', hsettled⟩ := h.settle hw env now s
  cases hfinal : (walked w (env.noticing FailedCall) primary ctx now d (s, log) mode).1.isOver with
  | false =>
    rw [settle_walking_going w _ primary ctx now d _ mode hfinal]
    exact .walking _ past' _ hsettled
  | true =>
    have hnone : Blames [] fun _ => False := .none (fun _ => id) fun _ => List.not_mem_nil
    have hblames := (hsettled.blames hfinal (visit_faults hfaults _ rfl) hnone).congr
      (fun e => (w.errs_mainResult_iff mode _ e).trans (iff_of_eq (false_or _)).symm)
      fun _ => Iff.rfl
    by_cases hlast : mode = .cleanup ∨ w.marked
        (walked w (env.noticing FailedCall) primary ctx now d (s, log) mode).1.completed = []
    · rw [settle_walking_last w _ primary ctx now d _ mode hfinal hlast]
      exact .ended _ _ hblames
    · rw [not_or] at hlast
      obtain rfl : mode = .reconcile := by
        cases mode with
        | reconcile => rfl
        | cleanup => exact absurd rfl hlast.1
      rw [settle_walking_marked w _ primary ctx now d _ hfinal hlast.2]
      exact settle_removing_charged hw hfaults _ _ _ _ _ hblames (Walk.heard_begin hw _) env now _

/-- The errors of a result are due to the failures that were heard, whether the pass is over or
not. -/
theorem Heard.charged {env : Environment I σ} {log : List FailedCall}
    {standing : Standing (Pass (I.noticing FailedCall)) PassResult}
    (h : (w.pass mode primary ctx).Heard env log standing) :
    Charged w mode primary ctx log standing := by
  induction h with
  | begin => exact .walking [] _ _ (Walk.heard_begin hw [])
  | settle log q _ now s standing s' log' hrun ih =>
    have hsettled : Charged w mode primary ctx (q.settle (env.noticing FailedCall) now (s, log)).2.2
        (q.settle (env.noticing FailedCall) now (s, log)).1 := by
      cases ih with
      | walking _ past d h => exact settle_walking_charged hw hfaults log past d h env now s
      | removing completed before _ past d hbefore h =>
        exact settle_removing_charged hw hfaults completed before log past d hbefore h env now s
    rw [hrun] at hsettled
    exact hsettled

/-- The errors of a pass are due to the calls that failed in the work on its nodes. -/
theorem Heard.blames {env : Environment I σ} {log : List FailedCall} {r : PassResult}
    (h : (w.pass mode primary ctx).Heard env log (.over r)) : Blames log r.Errs := by
  cases h.charged hw hfaults with
  | ended _ _ h => exact h

end
end Pass

namespace Workflow
variable {I : Interface}

/-- The same workflow, and the failed calls of its dependents are overheard. -/
structure Overhears (w' : Workflow (I.noticing FailedCall)) (w : Workflow I) : Prop where
  muted : w'.muted = w
  nodes : ∀ n ∈ w'.nodes, ∃ (R : Type) (d : Dependent I R), n.node = d.overheard

/-- Whatever dependents a workflow has, they can be overheard. -/
theorem exists_overhears (w : Workflow I)
    (h : ∀ n ∈ w.nodes, ∃ (R : Type) (d : Dependent I R), n.node = d.toNode) :
    ∃ w' : Workflow (I.noticing FailedCall), w'.Overhears w := by
  have hnodes : ∀ nodes : List (WorkflowNode I),
      (∀ n ∈ nodes, ∃ (R : Type) (d : Dependent I R), n.node = d.toNode) →
        ∃ nodes' : List (WorkflowNode (I.noticing FailedCall)),
          nodes'.map (fun n => ⟨n.node.muted, n.predecessors, n.successors⟩) = nodes ∧
            ∀ n ∈ nodes', ∃ (R : Type) (d : Dependent I R), n.node = d.overheard := by
    intro nodes
    induction nodes with
    | nil => exact fun _ => ⟨[], rfl, fun _ h => absurd h List.not_mem_nil⟩
    | cons n rest ih =>
      intro h
      obtain ⟨⟨R, d, hd⟩, hrest⟩ := List.forall_mem_cons.mp h
      obtain ⟨rest', hmuted, hoverheard⟩ := ih hrest
      refine ⟨⟨d.overheard, n.predecessors, n.successors⟩ :: rest', ?_,
        List.forall_mem_cons.mpr ⟨⟨R, d, rfl⟩, hoverheard⟩⟩
      rw [List.map_cons, hmuted, d.muted_overheard, ← hd]
  obtain ⟨nodes', hmuted, hoverheard⟩ := hnodes w.nodes h
  refine ⟨⟨w.name, nodes', w.topological, w.maxConcurrency, w.positive⟩, ?_, hoverheard⟩
  unfold Workflow.muted
  rw [hmuted]

section
variable {w' : Workflow (I.noticing FailedCall)} {w : Workflow I} (h : w'.Overhears w)
include h

/-- Whatever a pass comes to can be heard. -/
theorem Overhears.heard {σ : Type} {env : Environment I σ} {mode : PassMode}
    {primary : ManagedObject} {ctx : Context} {r : PassResult} {calls : List I.Call}
    (hcourse : (w.pass mode primary ctx).Course env (.over r) calls) :
    ∃ log, (w'.pass mode primary ctx).Heard env log (.over r) := by
  rw [← h.muted] at hcourse
  obtain ⟨log, _, hheard, hagree⟩ := hcourse.heard (Pass.mutes_pass w' mode primary ctx)
  cases hagree
  exact ⟨log, hheard⟩

/-- The error of a failed pass counts as a conflict if and only if every call does that failed in
the work on a node. -/
theorem Overhears.isConflict_iff (hw : w.WellFormed) {σ : Type} {env : Environment I σ}
    {mode : PassMode} {primary : ManagedObject} {ctx : Context} {r : PassResult}
    {log : List FailedCall} (hheard : (w'.pass mode primary ctx).Heard env log (.over r))
    (herrored : r.errored ≠ []) : (Error.dependents r.errored).isConflict = true ↔
      ∀ e, .inWork e ∈ log → e.isConflict = true := by
  have hfaults : ∀ n ∈ w'.nodes, ∀ mode, Node.Faults (n.node.visit mode primary ctx) := by
    intro n hn mode
    obtain ⟨R, d, hd⟩ := h.nodes n hn
    rw [hd]
    exact d.visit_faults primary ctx mode
  have hblames := hheard.blames (wellFormed_of_muted w' (h.muted ▸ hw)) hfaults
  rw [Error.isConflict_dependents_iff, and_iff_right herrored, ← hblames.conflicts_iff]
  exact ⟨fun hall e ⟨name, hmem⟩ => hall (name, e) hmem, fun hall m hm => hall m.2 ⟨m.1, hm⟩⟩

end
end Workflow
end Reconciliation
