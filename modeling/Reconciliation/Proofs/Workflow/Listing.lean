import Reconciliation.Proofs.Workflow.Refinement
import Reconciliation.Proofs.Workflow.Report
import Reconciliation.Proofs.Workflow.Telling

/-!
What the result of a pass lists. Outcomes are recorded by the walk over all nodes, then for the
nodes below inactive ones, then by the walk that deletes marked nodes. A mark is no outcome, and
no node is recorded by two of them. So the lists of a result share out the names of the nodes that
have an outcome, and its failure names every errored node once.
-/
namespace Reconciliation

namespace PassResult
variable (r : PassResult)

/-- The names of all lists together are the recorded ones. -/
theorem lists_perm :
    (r.succeeded ++ r.skipped ++ r.deleted ++ r.notReady ++ r.namesWhere NodeOutcome.isErrored).Perm
      r.completionOrder := by
  unfold succeeded skipped deleted notReady namesWhere completionOrder
  induction r.recorded with
  | nil => exact .refl _
  | cons e rest ih =>
    rw [List.perm_iff_count] at ih ⊢
    intro name
    have hrest := ih name
    rcases e with ⟨_, _ | _ | _ | _ | _⟩ <;>
      simp only [List.filter_cons, NodeOutcome.isSucceeded, NodeOutcome.isSkipped,
        NodeOutcome.isDeleted, NodeOutcome.isNotReady, NodeOutcome.isErrored, if_true,
        Bool.false_eq_true, if_false, List.map_cons, List.count_append, List.count_cons]
        at hrest ⊢ <;>
      omega

theorem map_errored : r.errored.map (·.1) = r.namesWhere NodeOutcome.isErrored := by
  unfold errored namesWhere
  induction r.recorded with
  | nil => rfl
  | cons e rest ih =>
    rcases e with ⟨name, o⟩
    cases o with
    | errored error => exact congrArg (name :: ·) ih
    | _ => exact ih

/-- The errors that a result lists are those of its errored nodes. -/
theorem mem_errored (name : String) (error : Error) :
    (name, error) ∈ r.errored ↔ (name, .errored error) ∈ r.recorded := by
  unfold errored
  rw [List.mem_filterMap]
  constructor
  · rintro ⟨⟨name', o⟩, he, heq⟩
    cases o with
    | errored error' =>
      cases heq
      exact he
    | _ => cases heq
  · exact fun h => ⟨_, h, rfl⟩

/-- The failure of a result is that of its errored nodes. -/
theorem toExcept_of_errored (h : r.errored ≠ []) :
    r.toExcept = .error (.dependents r.errored) := by
  unfold toExcept
  rw [if_neg (by simpa using h)]

theorem toExcept_of_no_errored (h : r.errored = []) : r.toExcept = .ok r := by
  unfold toExcept
  rw [h]
  rfl

section
variable {r} (hnodup : r.completionOrder.Nodup)
include hnodup

/-- Where no name is recorded twice, each record is the outcome of its name. -/
theorem outcome?_eq_some_iff (name : String) (o : NodeOutcome) :
    r.outcome? name = some o ↔ (name, o) ∈ r.recorded :=
  Association.lookup_eq_some_iff r.recorded hnodup name o

theorem mem_completionOrder_iff (name : String) :
    name ∈ r.completionOrder ↔ ∃ o, r.outcome? name = some o := by
  constructor
  · intro h
    obtain ⟨⟨_, o⟩, he, rfl⟩ := List.mem_map.mp h
    exact ⟨o, (outcome?_eq_some_iff hnodup _ o).mpr he⟩
  · rintro ⟨o, ho⟩
    exact List.mem_map_of_mem (f := (·.1)) ((outcome?_eq_some_iff hnodup name o).mp ho)

/-- A list has the names whose outcome it is about, in the order of completion. -/
theorem namesWhere_eq_filter (p : NodeOutcome → Bool) :
    r.namesWhere p = r.completionOrder.filter fun name => (r.outcome? name).any p := by
  unfold namesWhere completionOrder
  rw [List.filter_map]
  refine congrArg _ (List.filter_congr fun e he => ?_)
  rw [Function.comp_apply, (outcome?_eq_some_iff hnodup e.1 e.2).mpr he, Option.any_some]

end

end PassResult

namespace Workflow
variable {I : Interface} {σ : Type}

/-- These outcomes under the names of their nodes. -/
def named (w : Workflow I) (es : List (Nat × NodeOutcome)) : List (String × NodeOutcome) :=
  es.map fun e => (w.nameAt e.1, e.2)

/-- What the result of a pass lists, given the journals of its walks. -/
structure Lists (w : Workflow I) (r : PassResult) (journal removal : List Walk.Event) : Prop where
  once : r.completionOrder.Nodup
  covers : ∀ name, name ∈ r.completionOrder ↔ ∃ o, r.outcome? name = some o
  declared : ∀ name ∈ r.completionOrder, name ∈ w.topologicalOrder
  /-- First the nodes that the walk over all nodes has finished, but for the marked ones, then the
  inactive ones, then those that the walk over the marked nodes has finished. -/
  order : ∃ inactive : List Nat, r.recorded =
    w.named ((Walk.finishes journal).filter fun e => !e.2.isDeleted) ++
      w.named (inactive.map (·, .skippedInactive)) ++
      w.named ((Walk.finishes removal).map fun e => (e.1, e.2.asDeleted))
  /-- Every list has exactly the names whose outcome it is about, in the order of completion. -/
  classes : ∀ p, r.namesWhere p = r.completionOrder.filter fun name => (r.outcome? name).any p
  partition : (r.succeeded ++ r.skipped ++ r.deleted ++ r.notReady ++ r.errored.map (·.1)).Perm
    r.completionOrder
  unreached : r.unreached = w.topologicalOrder.filter fun name => (r.outcome? name).isNone
  passes : r.toExcept = .ok r ↔ r.errored = []
  fails : r.errored ≠ [] → r.toExcept = .error (.dependents r.errored)
  errored : r.errored.map (·.1) =
    r.completionOrder.filter fun name => (r.outcome? name).any NodeOutcome.isErrored
  /-- A node is listed with the error that its visit has finished with. -/
  own : ∀ i < w.nodes.length, ∀ error, (w.nameAt i, error) ∈ r.errored ↔
    .finished i (.errored error) ∈ journal ++ removal

section
variable {w : Workflow I} {env : Environment I σ} {mode : PassMode} {primary : ManagedObject}
  {ctx : Context} {s₀ s : σ} {journal removal : List Walk.Event} {r : PassResult}

/-- What a pass records, in the order of its three parts. -/
theorem Chronicle.recorded (hw : w.WellFormed)
    (h : w.Chronicle env mode primary ctx s₀ (.over r) journal removal s) :
    ∃ inactive : List Nat, r.recorded =
      w.named ((Walk.finishes journal).filter fun e => !e.2.isDeleted) ++
        w.named (inactive.map (·, .skippedInactive)) ++
        w.named ((Walk.finishes removal).map fun e => (e.1, e.2.asDeleted)) := by
  have hmain : ∀ completed, ∃ inactive : List Nat, (w.mainResult mode completed).recorded =
      w.named (completed.filter fun e => !e.2.isDeleted) ++
        w.named (inactive.map (·, .skippedInactive)) := by
    intro completed
    cases mode with
    | cleanup => exact ⟨[], (w.recorded_recordAll _ _).trans (List.append_nil _).symm⟩
    | reconcile =>
      refine ⟨w.inactive completed (w.marked completed), (w.recorded_recordAll _ _).trans ?_⟩
      rw [recorded_recordAll]
      rfl
  cases h with
  | walked _ d _ h hover =>
    obtain ⟨inactive, hinactive⟩ := hmain d.completed
    refine ⟨inactive, ?_⟩
    rw [(h.accounts hw).finishes_eq, hinactive]
    exact (List.append_nil _).symm
  | removed _ d s₁ h hover hmode _ _ d' _ h' hover' =>
    subst hmode
    obtain ⟨inactive, hinactive⟩ := hmain d.completed
    refine ⟨inactive, ?_⟩
    rw [(h.accounts hw).finishes_eq, (h'.accounts hw).finishes_eq, ← hinactive]
    exact w.recorded_recordAll _ _

theorem Chronicle.reports (hw : w.WellFormed)
    (h : w.Chronicle env mode primary ctx s₀ (.over r) journal removal s) : w.Reports r := by
  cases h with
  | walked _ d _ h hover =>
    obtain ⟨_, htidy⟩ := (h.accounts hw).tidy
    exact hw.reports_main mode (htidy.finished hover)
  | removed _ d _ h hover _ _ _ d' _ h' hover' =>
    obtain ⟨_, htidy⟩ := (h.accounts hw).tidy
    obtain ⟨_, htidy'⟩ := (h'.accounts hw).tidy
    exact hw.reports_removal (htidy.finished hover) (htidy'.finished hover')

/-- Only nodes that have started finish. -/
theorem Chronicle.finish_lt (hw : w.WellFormed)
    (h : w.Chronicle env mode primary ctx s₀ (.over r) journal removal s) (i : Nat)
    (o : NodeOutcome) (ho : .finished i o ∈ journal ++ removal) : i < w.nodes.length := by
  have hlt : ∀ (walk : Walk I) (events : List Walk.Event), walk.workflow = w →
      Warranted (walk.Permits primary ctx) [] events → .finished i o ∈ events →
        i < w.nodes.length := by
    rintro walk events rfl hwarranted hevent
    exact (Walk.scope_of_started hwarranted (Walk.started_of_finished hwarranted hevent)).1
  cases h with
  | walked _ d _ h =>
    rw [List.append_nil] at ho
    exact hlt _ _ rfl (h.accounts hw).warranted ho
  | removed _ d _ h _ _ _ _ d' _ h' =>
    rcases List.mem_append.mp ho with ho | ho
    · exact hlt _ _ rfl (h.accounts hw).warranted ho
    · exact hlt _ _ rfl (h'.accounts hw).warranted ho

theorem WellFormed.mem_named_iff (hw : w.WellFormed) (es : List (Nat × NodeOutcome))
    (hes : ∀ e ∈ es, e.1 < w.nodes.length) (i : Nat) (hi : i < w.nodes.length) (o : NodeOutcome) :
    (w.nameAt i, o) ∈ w.named es ↔ (i, o) ∈ es := by
  constructor
  · intro hmem
    obtain ⟨⟨j, o'⟩, he, heq⟩ := List.mem_map.mp hmem
    obtain ⟨hname, rfl⟩ := Prod.mk.inj heq
    rwa [hw.nameAt_injective i j hi (hes _ he) hname.symm]
  · exact fun hmem => List.mem_map.mpr ⟨_, hmem, rfl⟩

/-- A failure stands in the result as the visit has reported it. -/
theorem Chronicle.mem_recorded_errored (hw : w.WellFormed)
    (h : w.Chronicle env mode primary ctx s₀ (.over r) journal removal s) (i : Nat)
    (hi : i < w.nodes.length) (error : Error) :
    (w.nameAt i, .errored error) ∈ r.recorded ↔
      .finished i (.errored error) ∈ journal ++ removal := by
  have hlt : ∀ events ⊆ journal ++ removal, ∀ e ∈ Walk.finishes events, e.1 < w.nodes.length :=
    fun events hevents e he => h.finish_lt hw e.1 e.2 (hevents ((Walk.mem_finishes _ _ _).mp he))
  obtain ⟨inactive, hrecorded⟩ := h.recorded hw
  have hran : (w.nameAt i, .errored error) ∈
      w.named ((Walk.finishes journal).filter fun e => !e.2.isDeleted) ↔
        .finished i (.errored error) ∈ journal := by
    rw [hw.mem_named_iff _ (fun e he => hlt _ (List.subset_append_left _ _) e
      (List.mem_filter.mp he).1) i hi, List.mem_filter, Walk.mem_finishes]
    exact and_iff_left rfl
  have hskipped : (w.nameAt i, .errored error) ∉ w.named (inactive.map (·, .skippedInactive)) := by
    intro hmem
    obtain ⟨e, he, heq⟩ := List.mem_map.mp hmem
    obtain ⟨j, _, rfl⟩ := List.mem_map.mp he
    cases (Prod.mk.inj heq).2
  have hremoved : (w.nameAt i, .errored error) ∈
      w.named ((Walk.finishes removal).map fun e => (e.1, e.2.asDeleted)) ↔
        .finished i (.errored error) ∈ removal := by
    rw [hw.mem_named_iff _ (fun e he => ?_) i hi, ← Walk.mem_finishes]
    · constructor
      · intro hmem
        obtain ⟨⟨j, o⟩, he, heq⟩ := List.mem_map.mp hmem
        cases o <;> cases heq
        exact he
      · exact fun hmem => List.mem_map.mpr ⟨_, hmem, rfl⟩
    · obtain ⟨e', he', rfl⟩ := List.mem_map.mp he
      exact hlt removal (List.subset_append_right _ _) e' he'
  rw [hrecorded, List.mem_append, List.mem_append, List.mem_append, hran, hremoved,
    or_iff_left hskipped]

/-- The names of the two walks are apart: what the second one deletes is marked, and a mark is no
outcome of the first one. -/
theorem Chronicle.lists (hw : w.WellFormed)
    (h : w.Chronicle env mode primary ctx s₀ (.over r) journal removal s) :
    w.Lists r journal removal := by
  have hreports := h.reports hw
  obtain ⟨es, hrecords⟩ := hreports.records
  have hnodup := hrecords.completionOrder_nodup hw
  have hclasses := PassResult.namesWhere_eq_filter hnodup
  constructor
  case once => exact hnodup
  case covers => exact PassResult.mem_completionOrder_iff hnodup
  case declared =>
    intro name hname
    unfold PassResult.completionOrder at hname
    rw [hrecords.named, List.map_map] at hname
    obtain ⟨e, he, rfl⟩ := List.mem_map.mp hname
    exact List.mem_map_of_mem ((hw.mem_topological e.1).mpr (hrecords.ids_lt e he))
  case order => exact h.recorded hw
  case classes => exact hclasses
  case partition =>
    rw [r.map_errored]
    exact r.lists_perm
  case unreached =>
    unfold PassResult.unreached
    rw [hreports.declared]
  case passes =>
    refine ⟨fun hok => ?_, r.toExcept_of_no_errored⟩
    by_contra herrored
    rw [r.toExcept_of_errored herrored] at hok
    cases hok
  case fails => exact r.toExcept_of_errored
  case errored =>
    rw [r.map_errored]
    exact hclasses NodeOutcome.isErrored
  case own =>
    intro i hi error
    rw [r.mem_errored]
    exact h.mem_recorded_errored hw i hi error

end
end Workflow

namespace WorkflowPlan
variable {I : Interface} {σ : Type}

/-- Under every schedule, the result of a pass over an accepted workflow lists every node once at
most, in the order in which the nodes were finished, and sorts those listed into classes by their
outcomes. Whatever is answered and when, the pass comes to a result, under some such schedule. -/
theorem outcomes_listed_once (p : WorkflowPlan I) (w : Workflow I) (hw : p.build = .ok w)
    (env : Environment I σ) (mode : PassMode) (primary : ManagedObject) (ctx : Context) (now : Nat)
    (s : σ) :
    (∀ r journal removal s',
      w.Chronicle env mode primary ctx s (.over r) journal removal s' →
        w.Lists r journal removal) ∧
    (∃ fuel r, ((w.pass mode primary ctx).finish env fuel now s).1 = some r) ∧
    ∀ fuel r now' s',
      (w.pass mode primary ctx).finish env fuel now s = (some r, now', s') →
        ∃ journal removal,
          w.Chronicle env mode primary ctx s (.over r) journal removal s' := by
  obtain ⟨hformed, _⟩ := p.build_wellFormed w hw
  exact ⟨fun _ _ _ _ h => h.lists hformed, Pass.finish_told hformed env mode primary ctx now s⟩

/-- A report that cannot be written, and a schema that is not wanted any more but stays. -/
def migrationAnswers : String → NodeAnswers
  | "report" => { reconcile := .error (.adapter "report" "disk full") }
  | "schema" =>
    { check := fun | .reconcilePrecondition => some (.ok false) | _ => none
      delete := .error (.adapter "schema" "locked") }
  | _ => {}

def migration : WorkflowPlan waiting where
  name := "migration"
  nodes := [slowNode "index" ["schema"] 2 (migrationAnswers "index"),
    slowNode "schema" [] 3 (migrationAnswers "schema"),
    slowNode "report" [] 7 (migrationAnswers "report")]

/-- The schema fails in the walk that deletes it, so it comes last. -/
theorem outcomes_listed_once_migration :
    ∃ w, migration.build = .ok w ∧ ∃ r journal removal,
      (w.pass .reconcile default { primary := default }).finish clock 9 0 () = (some r, 12, ()) ∧
      w.Chronicle clock .reconcile default { primary := default } () (.over r) journal removal () ∧
      r.completionOrder = ["report", "index", "schema"] ∧ r.deleted = ["index"] ∧
      r.toExcept = .error (.dependents [("report", .adapter "report" "disk full"),
        ("schema", .adapter "schema" "locked")]) ∧
      .finished 1 (.errored (.adapter "schema" "locked")) ∈ journal ++ removal := by
  have hbuild : migration.build = .ok (migration.ordered [2, 1, 0]) := rfl
  obtain ⟨hlists, _, htold⟩ := migration.outcomes_listed_once _ hbuild clock .reconcile default
    { primary := default } 0 ()
  obtain ⟨r, hr, horder, hdeleted, herrored⟩ : ∃ r, ((migration.ordered [2, 1, 0]).pass .reconcile
      default { primary := default }).finish clock 9 0 () = (some r, 12, ()) ∧
      r.completionOrder = ["report", "index", "schema"] ∧ r.deleted = ["index"] ∧
      r.errored = [("report", .adapter "report" "disk full"),
        ("schema", .adapter "schema" "locked")] := ⟨_, rfl, rfl, rfl, rfl⟩
  obtain ⟨journal, removal, hchronicle⟩ := htold 9 r 12 () hr
  have hall := hlists r journal removal () hchronicle
  have hfails := hall.fails (by rw [herrored]; exact List.cons_ne_nil _ _)
  have hown := (hall.own 1 (by decide) (.adapter "schema" "locked")).mp
    (by rw [herrored]; exact List.mem_cons_of_mem _ List.mem_cons_self)
  rw [herrored] at hfails
  exact ⟨_, hbuild, r, journal, removal, hr, hchronicle, horder, hdeleted, hfails, hown⟩

end WorkflowPlan
end Reconciliation
