import Reconciliation.Proofs.Bulk.Members
import Reconciliation.Proofs.Retry.Leaves
import Reconciliation.Workflow.Visit

/-!
Failed calls to the adapter of a dependent. Each call to an adapter can be overheard when it fails,
on behalf of a condition or of the work on the node. A condition that fails with such a call leaves
the node not ready; so the error of a visit is due to the calls that failed in the work alone, and
it counts as a conflict if and only if each of them does.
-/
namespace Reconciliation

/-- A failed call to an adapter. -/
inductive FailedCall where
  | inCondition (e : Error)
  | inWork (e : Error)

/-- These errors are due to the calls that failed in the work on nodes: there are some if there was
such a call, and all of them count as conflicts if and only if all those calls do. -/
structure Blames (log : List FailedCall) (errors : Error → Prop) : Prop where
  exists_iff : (∃ e, errors e) ↔ ∃ e, .inWork e ∈ log
  conflicts_iff : (∀ e, errors e → e.isConflict = true) ↔
    ∀ e, .inWork e ∈ log → e.isConflict = true

namespace Blames
variable {log log' : List FailedCall} {errors errors' : Error → Prop}

theorem none (herrors : ∀ e, ¬ errors e) (hlog : ∀ e, .inWork e ∉ log) :
    Blames log errors :=
  ⟨iff_of_false (fun ⟨e, he⟩ => herrors e he) fun ⟨e, he⟩ => hlog e he,
    iff_of_true (fun e he => absurd he (herrors e)) fun e he => absurd he (hlog e)⟩

theorem congr (h : Blames log errors) (herrors : ∀ e, errors' e ↔ errors e)
    (hlog : ∀ e, .inWork e ∈ log' ↔ .inWork e ∈ log) : Blames log' errors' := by
  obtain rfl : errors' = errors := funext fun e => propext (herrors e)
  exact ⟨h.exists_iff.trans (exists_congr fun e => (hlog e).symm),
    h.conflicts_iff.trans (forall_congr' fun e => imp_congr (hlog e).symm Iff.rfl)⟩

/-- Where all errors and all failed calls belong to some cause, it is enough to look at each. -/
theorem of_causes {ι : Type} (part : ι → List FailedCall) (due : ι → Error → Prop)
    (cause : ι → Prop) (h : ∀ i, cause i → Blames (part i) (due i))
    (herrors : ∀ e, errors e ↔ ∃ i, cause i ∧ due i e)
    (hlog : ∀ e, .inWork e ∈ log ↔ ∃ i, cause i ∧ .inWork e ∈ part i) : Blames log errors where
  exists_iff := by
    constructor
    · rintro ⟨e, he⟩
      obtain ⟨i, hi, hdue⟩ := (herrors e).mp he
      obtain ⟨x, hx⟩ := (h i hi).exists_iff.mp ⟨e, hdue⟩
      exact ⟨x, (hlog x).mpr ⟨i, hi, hx⟩⟩
    · rintro ⟨x, hx⟩
      obtain ⟨i, hi, hpart⟩ := (hlog x).mp hx
      obtain ⟨e, he⟩ := (h i hi).exists_iff.mpr ⟨x, hpart⟩
      exact ⟨e, (herrors e).mpr ⟨i, hi, he⟩⟩
  conflicts_iff := by
    constructor
    · intro hall x hx
      obtain ⟨i, hi, hpart⟩ := (hlog x).mp hx
      exact (h i hi).conflicts_iff.mp (fun e he => hall e ((herrors e).mpr ⟨i, hi, he⟩)) x hpart
    · intro hall e he
      obtain ⟨i, hi, hdue⟩ := (herrors e).mp he
      exact (h i hi).conflicts_iff.mpr (fun x hx => hall x ((hlog x).mpr ⟨i, hi, hx⟩)) e hdue

theorem single (e : Error) : Blames [.inWork e] (· = e) := by
  have hmem : ∀ x, FailedCall.inWork x ∈ [FailedCall.inWork e] ↔ x = e := fun x => by simp
  exact ⟨⟨fun _ => ⟨e, (hmem e).mpr rfl⟩, fun _ => ⟨e, rfl⟩⟩,
    forall_congr' fun x => imp_congr (hmem x).symm Iff.rfl⟩

end Blames

section
variable {I : Interface} {N R α β : Type}

/-- Gives notice of an error. -/
def failureNotices (f : Error → N) : Except Error α → List N
  | .ok _ => []
  | .error e => [f e]

/-- The same call, which is overheard when it fails. -/
def Action.overheard (f : Error → N) (t : Action I (Except Error α)) :
    Action (I.noticing N) (Except Error α) :=
  t.reported [] (failureNotices f)

def SingletonWrites.overheard (f : Error → N) (w : SingletonWrites I R) :
    SingletonWrites (I.noticing N) R where
  desired primary ctx := (w.desired primary ctx).overheard f
  agrees := w.agrees
  create wanted primary ctx := (w.create wanted primary ctx).overheard f
  update actual wanted primary ctx := (w.update actual wanted primary ctx).overheard f
  delete actual primary ctx := (w.delete actual primary ctx).overheard f

def BulkAdapterWrites.overheard (f : Error → N) (w : BulkAdapterWrites I R) :
    BulkAdapterWrites (I.noticing N) R where
  desired primary ctx := (w.desired primary ctx).overheard f
  agrees := w.agrees
  create key wanted primary ctx := (w.create key wanted primary ctx).overheard f
  update key actual wanted primary ctx := (w.update key actual wanted primary ctx).overheard f
  delete key actual primary ctx := (w.delete key actual primary ctx).overheard f

/-- The same adapter, whose calls are overheard when they fail. -/
def Adapter.overheard (f : Error → N) : Adapter I R → Adapter (I.noticing N) R
  | .singleton secondary writes =>
    .singleton (fun primary ctx => (secondary primary ctx).overheard f)
      (writes.map (·.overheard f))
  | .bulk secondaries writes =>
    .bulk (fun primary ctx => (secondaries primary ctx).overheard f) (writes.map (·.overheard f))

/-- The node of a dependent, whose failed calls are overheard. -/
def Dependent.overheard (d : Dependent I R) : Node (I.noticing FailedCall) where
  name := d.name
  dependsOn := d.dependsOn
  capability := d.adapter.capability
  check kind primary ctx := (d.condition? kind).map fun condition =>
    (((d.adapter.overheard .inCondition).observe primary ctx).andThen fun observed =>
      (condition primary observed ctx).lifted FailedCall).bind fun outcome =>
        .done (outcome.mapError (asEvaluationError d.name kind))
  reconcile := (d.adapter.overheard .inWork).reconcile d.name
  delete := (d.adapter.overheard .inWork).delete d.name

/-- The same node, which says nothing. -/
def Node.muted (n : Node (I.noticing N)) : Node I where
  name := n.name
  dependsOn := n.dependsOn
  capability := n.capability
  check kind primary ctx := (n.check kind primary ctx).map Action.muted
  reconcile primary ctx := (n.reconcile primary ctx).muted
  delete primary ctx := (n.delete primary ctx).muted

theorem Action.muted_overheard (f : Error → N) (t : Action I (Except Error α)) :
    (t.overheard f).muted = t :=
  t.muted_reported [] (failureNotices f)

theorem Action.muted_overheard_andThen (f : Error → N) (t : Action I (Except Error α))
    (g : α → Action (I.noticing N) (Except Error β)) (g' : α → Action I (Except Error β))
    (hg : ∀ a, (g a).muted = g' a) : ((t.overheard f).andThen g).muted = t.andThen g' := by
  rw [muted_andThen, muted_overheard]
  exact congrArg t.andThen (funext hg)

theorem Task.muted_overheard_andThen (f : Error → N) (t : Action I (Except Error α))
    (g : α → Task (I.noticing N) Error (Except Error β)) (g' : α → Task I Error (Except Error β))
    (hg : ∀ a, (g a).muted = g' a) :
    ((ofAction (t.overheard f)).andThen g).muted = (ofAction t).andThen g' := by
  rw [muted_andThen, muted_ofAction, Action.muted_overheard]
  exact congrArg (Task.ofAction t).andThen (funext hg)

end

namespace Adapter
variable {I : Interface} {N R : Type} (f : Error → N) (a : Adapter I R) (name : String)
  (primary : ManagedObject) (ctx : Context)

theorem muted_observe_overheard :
    ((a.overheard f).observe primary ctx).muted = a.observe primary ctx := by
  cases a <;> exact Action.muted_overheard_andThen f _ _ _ fun _ => rfl

/-- To overhear a reconcile does not change what it does. -/
theorem muted_reconcileSingleton_overheard (secondary : Action I (Except Error (Option R)))
    (w : SingletonWrites I R) :
    (reconcileSingleton (secondary.overheard f) (w.overheard f) primary ctx).muted =
      reconcileSingleton secondary w primary ctx := by
  refine Action.muted_overheard_andThen f _ _ _ fun desired => ?_
  refine Action.muted_overheard_andThen f _ _ _ fun actual => ?_
  cases actual with
  | none => exact Action.muted_overheard_andThen f _ _ _ fun _ => rfl
  | some actual =>
    unfold SingletonWrites.overheard
    dsimp only
    cases w.agrees actual desired with
    | true => rfl
    | false => exact Action.muted_overheard_andThen f _ _ _ fun _ => rfl

theorem muted_deleteSingleton_overheard (secondary : Action I (Except Error (Option R)))
    (w : SingletonWrites I R) :
    (deleteSingleton (secondary.overheard f) (w.overheard f) primary ctx).muted =
      deleteSingleton secondary w primary ctx := by
  refine Action.muted_overheard_andThen f _ _ _ fun actual => ?_
  cases actual with
  | none => rfl
  | some actual => exact Action.muted_overheard_andThen f _ _ _ fun _ => rfl

theorem on_overheard (w : BulkAdapterWrites I R) : (w.overheard f).on primary ctx =
    (w.on primary ctx).reported (fun _ => []) fun _ => failureNotices f := rfl

theorem muted_apply_overheard (w : BulkAdapterWrites I R) (p : BulkPlan R) :
    (p.apply name ((w.overheard f).on primary ctx)).muted = p.apply name (w.on primary ctx) := by
  rw [on_overheard]
  exact BulkPlan.muted_apply_reported _ _ name (w.on primary ctx) p

/-- To overhear an adapter of any kind does not change how it reconciles. -/
theorem muted_reconcile_overheard :
    ((a.overheard f).reconcile name primary ctx).muted = a.reconcile name primary ctx := by
  cases a with
  | singleton secondary writes =>
    cases writes with
    | none =>
      refine (Task.muted_ofAction _).trans (congrArg Task.ofAction ?_)
      exact Action.muted_overheard_andThen f _ _ _ fun _ => rfl
    | some w =>
      refine (Task.muted_ofAction _).trans (congrArg Task.ofAction ?_)
      exact muted_reconcileSingleton_overheard f primary ctx _ w
  | bulk secondaries writes =>
    cases writes with
    | none =>
      refine (Task.muted_ofAction _).trans (congrArg Task.ofAction ?_)
      exact Action.muted_overheard_andThen f _ _ _ fun _ => rfl
    | some w =>
      refine Task.muted_overheard_andThen f _ _ _ fun desired => ?_
      refine Task.muted_overheard_andThen f _ _ _ fun actual => ?_
      exact muted_apply_overheard f name primary ctx w _

/-- Nor does it change how it deletes. -/
theorem muted_delete_overheard :
    ((a.overheard f).delete name primary ctx).muted = a.delete name primary ctx := by
  cases a with
  | singleton secondary writes =>
    cases writes with
    | none => rfl
    | some w =>
      refine (Task.muted_ofAction _).trans (congrArg Task.ofAction ?_)
      exact muted_deleteSingleton_overheard f primary ctx _ w
  | bulk secondaries writes =>
    cases writes with
    | none => rfl
    | some w =>
      refine Task.muted_overheard_andThen f _ _ _ fun actual => ?_
      exact muted_apply_overheard f name primary ctx w _

end Adapter

/-- A dependent that is overheard is the same dependent. -/
theorem Dependent.muted_overheard {I : Interface} {R : Type} (d : Dependent I R) :
    d.overheard.muted = d.toNode := by
  unfold Node.muted overheard toNode
  congr 1
  · funext kind primary ctx
    unfold check
    rw [Option.map_map]
    refine congrArg (Option.map · _) (funext fun condition => ?_)
    rw [Function.comp_apply, Action.muted_bind, Action.muted_andThen,
      Adapter.muted_observe_overheard]
    simp only [Action.muted_lifted]
    rfl
  · funext primary ctx
    exact d.adapter.muted_reconcile_overheard FailedCall.inWork d.name primary ctx
  · funext primary ctx
    exact d.adapter.muted_delete_overheard FailedCall.inWork d.name primary ctx

section
variable {I : Interface} {α β : Type}

/-- Nothing failed in the work on a node. -/
def Blameless (log : List FailedCall) : Prop := ∀ e, .inWork e ∉ log

theorem Blames.blameless {log : List FailedCall} {errors : Error → Prop} (h : Blames log errors)
    (herrors : ∀ e, ¬ errors e) : Blameless log := fun e he =>
  (h.exists_iff.mpr ⟨e, he⟩).elim herrors

/-- What went before without a failure changes nothing. -/
theorem Blames.after {log : List FailedCall} {errors : Error → Prop} (h : Blames log errors)
    {before : List FailedCall} (hbefore : Blameless before) : Blames (before ++ log) errors :=
  h.congr (fun _ => Iff.rfl) fun e => by
    rw [List.mem_append, or_iff_right (hbefore e)]

/-- Of two steps one after another, either the first fails, or the second is to blame. -/
theorem Blames.andThen {first : List FailedCall → Except Error α → Prop}
    {second : α → List FailedCall → Except Error β → Prop}
    (hfirst : ∀ log v, first log v → Blames log fun e => v = .error e)
    (hsecond : ∀ a log v, second a log v → Blames log fun e => v = .error e)
    {log : List FailedCall} {v : Except Error β}
    (h : (∃ e, v = .error e ∧ first log (.error e)) ∨
      ∃ before a rest, log = before ++ rest ∧ first before (.ok a) ∧ second a rest v) :
    Blames log fun e => v = .error e := by
  rcases h with ⟨e, rfl, hfailed⟩ | ⟨before, a, rest, rfl, hbefore, hrest⟩
  · refine (hfirst log _ hfailed).congr (fun x => ?_) fun _ => Iff.rfl
    rw [Except.error.injEq, Except.error.injEq]
  · exact (hsecond a rest v hrest).after ((hfirst before _ hbefore).blameless nofun)

/-- Whatever is answered, the error of the action is due to the calls that failed. -/
def Action.Blaming (t : Action (I.noticing FailedCall) (Except Error α)) : Prop :=
  ∀ log v, t.Gives log v → Blames log fun e => v = .error e

def Task.Blaming (t : Task (I.noticing FailedCall) Error (Except Error α)) : Prop :=
  ∀ log v, t.Gives log v → Blames log fun e => v = .error e

theorem blames_failureNotices (v : Except Error α) :
    Blames (failureNotices .inWork v) fun e => v = .error e := by
  cases v with
  | ok a => exact .none nofun fun _ => List.not_mem_nil
  | error e =>
    exact (Blames.single e).congr (fun x => ⟨fun h => (Except.error.inj h).symm, fun h => h ▸ rfl⟩)
      fun _ => Iff.rfl

theorem Action.overheard_blaming (t : Action I (Except Error α)) :
    (t.overheard FailedCall.inWork).Blaming := by
  intro log v h
  rw [h.of_reported]
  exact blames_failureNotices v

theorem Action.done_ok_blaming (a : α) :
    (done (.ok a) : Action (I.noticing FailedCall) (Except Error α)).Blaming := by
  intro log v h
  cases h
  exact .none nofun fun _ => List.not_mem_nil

theorem Action.Blaming.andThen {t : Action (I.noticing FailedCall) (Except Error α)}
    {f : α → Action (I.noticing FailedCall) (Except Error β)} (ht : t.Blaming)
    (hf : ∀ a, (f a).Blaming) : (t.andThen f).Blaming :=
  fun _ _ h => Blames.andThen ht hf h.of_andThen

theorem Task.Blaming.andThen {t : Task (I.noticing FailedCall) Error (Except Error α)}
    {f : α → Task (I.noticing FailedCall) Error (Except Error β)} (ht : t.Blaming)
    (hf : ∀ a, (f a).Blaming) : (t.andThen f).Blaming :=
  fun _ _ h => Blames.andThen ht hf h.of_andThen

theorem Action.Blaming.ofAction {t : Action (I.noticing FailedCall) (Except Error α)}
    (ht : t.Blaming) : (Task.ofAction t).Blaming := fun log v h =>
  ht log v ((Task.gives_ofAction_iff t log v).mp h)

theorem Task.done_ok_blaming (a : α) :
    (done (.ok a) : Task (I.noticing FailedCall) Error (Except Error α)).Blaming :=
  (Action.done_ok_blaming a).ofAction

end

namespace BulkPlan
variable {I : Interface} {R : Type}

/-- One failure is passed on, several are bundled; both count as a conflict if and only if all
failed members do. -/
theorem Concludes.blames {name : String} {p : BulkPlan R} {outcomes : Outcomes R}
    {v : Except Error Operations} (h : Concludes name p outcomes v) {log : List FailedCall}
    (hlog : ∀ e, .inWork e ∈ log ↔ ∃ step, (step, e) ∈ failed outcomes) :
    Blames log fun e => v = .error e := by
  rcases hfailed : failed outcomes with _ | ⟨⟨step, e⟩, _ | ⟨second, rest⟩⟩
  · rw [hfailed] at hlog
    obtain ⟨operations, rfl⟩ := h.ok_iff.mpr ((failed_eq_nil_iff outcomes).mp hfailed)
    exact .none nofun fun x hx => (hlog x).mp hx |>.elim fun _ => List.not_mem_nil
  · rw [hfailed] at hlog
    obtain rfl := h.own step e hfailed
    refine (Blames.single e).congr (fun x => ⟨fun hx => (Except.error.inj hx).symm, ?_⟩) fun x => ?_
    · rintro rfl
      rfl
    · rw [hlog]
      simp
  · have hv := h.several (by rw [hfailed]; simp)
    obtain rfl := hv
    have hmembers : (Error.dependents ((failed outcomes).map fun e =>
        (name ++ "[" ++ e.1.key ++ "]", e.2))).isConflict = true ↔
        ∀ e, .inWork e ∈ log → e.isConflict = true := by
      rw [Error.isConflict_dependents_iff, and_iff_right (by rw [hfailed]; simp),
        List.forall_mem_map]
      constructor
      · intro hall e he
        obtain ⟨step, hmem⟩ := (hlog e).mp he
        exact hall (step, e) hmem
      · exact fun hall m hm => hall m.2 ((hlog m.2).mpr ⟨m.1, hm⟩)
    refine ⟨iff_of_true ⟨_, rfl⟩ ⟨second.2, (hlog _).mpr ⟨second.1, ?_⟩⟩, ?_⟩
    · rw [hfailed]
      exact List.mem_cons_of_mem _ List.mem_cons_self
    · rw [← hmembers]
      exact ⟨fun hall => hall _ rfl, fun hconflict e he => (Except.error.inj he) ▸ hconflict⟩

/-- A bulk plan blames its failure on the calls that have failed. -/
theorem apply_blaming (name : String) (w : BulkWrites I R) (p : BulkPlan R) :
    (p.apply name
      (w.reported (fun _ => []) fun _ => failureNotices FailedCall.inWork)).Blaming := by
  intro log v h
  obtain ⟨outcomes, hsteps, hheard, rfl⟩ := gives_apply_reported _ _ name w p log v h
  refine (concludes name p outcomes hsteps).blames fun e => ?_
  rw [hheard.mem_iff, List.mem_flatMap]
  constructor
  · rintro ⟨⟨step, x | ⟨⟩⟩, hmem, he⟩
    · obtain rfl := FailedCall.inWork.inj (List.mem_singleton.mp he)
      exact ⟨step, (mem_failed_iff outcomes step e).mpr hmem⟩
    · cases he
  · rintro ⟨step, hmem⟩
    exact ⟨_, (mem_failed_iff outcomes step e).mp hmem, List.mem_singleton_self _⟩

end BulkPlan

namespace Adapter
variable {I : Interface} {R : Type} (name : String) (primary : ManagedObject) (ctx : Context)

theorem reconcileSingleton_blaming (secondary : Action I (Except Error (Option R)))
    (w : SingletonWrites I R) :
    (reconcileSingleton (secondary.overheard .inWork) (w.overheard .inWork) primary
      ctx).Blaming := by
  refine (Action.overheard_blaming _).andThen fun desired => ?_
  refine (Action.overheard_blaming _).andThen fun actual => ?_
  cases actual with
  | none => exact (Action.overheard_blaming _).andThen fun _ => Action.done_ok_blaming _
  | some actual =>
    unfold SingletonWrites.overheard
    dsimp only
    cases w.agrees actual desired with
    | true => exact Action.done_ok_blaming _
    | false => exact (Action.overheard_blaming _).andThen fun _ => Action.done_ok_blaming _

theorem deleteSingleton_blaming (secondary : Action I (Except Error (Option R)))
    (w : SingletonWrites I R) :
    (deleteSingleton (secondary.overheard .inWork) (w.overheard .inWork) primary ctx).Blaming := by
  refine (Action.overheard_blaming _).andThen fun actual => ?_
  cases actual with
  | none => exact Action.done_ok_blaming _
  | some actual => exact (Action.overheard_blaming _).andThen fun _ => Action.done_ok_blaming _

/-- Every reconcile of an adapter blames its failure on the calls that have failed. -/
theorem reconcile_blaming (a : Adapter I R) :
    ((a.overheard .inWork).reconcile name primary ctx).Blaming := by
  cases a with
  | singleton secondary writes =>
    cases writes with
    | none =>
      exact ((Action.overheard_blaming _).andThen fun _ => Action.done_ok_blaming _).ofAction
    | some w => exact (reconcileSingleton_blaming primary ctx _ w).ofAction
  | bulk secondaries writes =>
    cases writes with
    | none =>
      exact ((Action.overheard_blaming _).andThen fun _ => Action.done_ok_blaming _).ofAction
    | some w =>
      refine (Action.overheard_blaming _).ofAction.andThen fun desired => ?_
      refine (Action.overheard_blaming _).ofAction.andThen fun actual => ?_
      exact BulkPlan.apply_blaming name (w.on primary ctx) _

/-- So does every delete. -/
theorem delete_blaming (a : Adapter I R) :
    ((a.overheard .inWork).delete name primary ctx).Blaming := by
  cases a with
  | singleton secondary writes =>
    cases writes with
    | none => exact Task.done_ok_blaming _
    | some w => exact (deleteSingleton_blaming primary ctx _ w).ofAction
  | bulk secondaries writes =>
    cases writes with
    | none => exact Task.done_ok_blaming _
    | some w =>
      refine (Action.overheard_blaming _).ofAction.andThen fun actual => ?_
      exact BulkPlan.apply_blaming name (w.on primary ctx) _

end Adapter

namespace Node
variable {I : Interface}

/-- The error of a visit that goes on so is due to the calls that failed. -/
def Faults (t : Task (I.noticing FailedCall) Error NodeOutcome) : Prop :=
  ∀ log o, t.Gives log o → Blames log fun e => o = .errored e

theorem faults_done (o : NodeOutcome) (ho : ∀ e, o ≠ .errored e) :
    Faults (.done o : Task (I.noticing FailedCall) Error NodeOutcome) := by
  intro log o' h
  cases h
  exact .none ho fun _ => List.not_mem_nil

/-- A condition may fail, but that is no error of the visit. -/
theorem faults_gate (check : Option (Action (I.noticing FailedCall) (Except Error Bool)))
    (hcheck : ∀ evaluate, check = some evaluate → ∀ log v, evaluate.Gives log v → Blameless log)
    (operations : Operations) (closed : NodeOutcome) (hclosed : ∀ e, closed ≠ .errored e)
    (proceed : Task (I.noticing FailedCall) Error NodeOutcome) (hproceed : Faults proceed) :
    Faults (gate check operations closed proceed) := by
  cases check with
  | none => exact hproceed
  | some evaluate =>
    intro log o h
    obtain ⟨first, v, rest, rfl, hfirst, hrest⟩ := (Task.gives_bind_iff _ _ _ _).mp h
    -- What failed on behalf of the condition is not to blame, whatever the condition comes to.
    have hblameless := hcheck evaluate rfl first v ((Task.gives_ofAction_iff _ _ _).mp hfirst)
    refine Blames.after ?_ hblameless
    match v, hrest with
    | .ok true, hrest => exact hproceed rest o hrest
    | .ok false, hrest => exact faults_done closed hclosed rest o hrest
    | .error e, hrest => exact faults_done _ (by nofun) rest o hrest

/-- An error of the work is the error of the visit. -/
theorem faults_bind {α : Type} {work : Task (I.noticing FailedCall) Error (Except Error α)}
    (hwork : work.Blaming) (f : Except Error α → Task (I.noticing FailedCall) Error NodeOutcome)
    (herror : ∀ e, f (.error e) = .done (.errored e)) (hok : ∀ a, Faults (f (.ok a))) :
    Faults (work.bind f) := by
  intro log o h
  obtain ⟨first, v, rest, rfl, hfirst, hrest⟩ := (Task.gives_bind_iff _ _ _ _).mp h
  cases v with
  | error e =>
    rw [herror] at hrest
    cases hrest
    rw [List.append_nil]
    refine (hwork first _ hfirst).congr (fun x => ?_) fun _ => Iff.rfl
    rw [NodeOutcome.errored.injEq, Except.error.injEq]
  | ok a => exact (hok a rest o hrest).after ((hwork first _ hfirst).blameless nofun)

end Node

namespace Dependent
variable {I : Interface} {R : Type} (d : Dependent I R) (primary : ManagedObject) (ctx : Context)

/-- No failed observation for a condition counts as a failure of the work. -/
theorem observe_blameless (a : Adapter I R) (log : List FailedCall)
    (v : Except Error (Observed R))
    (h : ((a.overheard .inCondition).observe primary ctx).Gives log v) : Blameless log := by
  have hcall : ∀ {α β : Type} (t : Action I (Except Error α)) (g : α → β) (v : Except Error β),
      ((t.overheard FailedCall.inCondition).andThen fun a => .done (.ok (g a))).Gives log v →
        Blameless log := by
    intro α β t g v h
    rcases h.of_andThen with ⟨e, _, hfailed⟩ | ⟨first, a, rest, rfl, hfirst, hrest⟩
    · rw [hfailed.of_reported]
      intro x hx
      cases List.mem_singleton.mp hx
    · rw [hfirst.of_reported]
      cases hrest
      exact fun _ => List.not_mem_nil
  cases a with
  | singleton secondary _ => exact hcall _ Observed.single v h
  | bulk secondaries _ => exact hcall _ Observed.bulk v h

/-- So nothing that a condition does is blamed on the work. -/
theorem check_blameless (kind : ConditionKind)
    (evaluate : Action (I.noticing FailedCall) (Except Error Bool))
    (hevaluate : d.overheard.check kind primary ctx = some evaluate) (log : List FailedCall)
    (v : Except Error Bool) (h : evaluate.Gives log v) : Blameless log := by
  obtain ⟨condition, _, rfl⟩ := Option.map_eq_some_iff.mp hevaluate
  obtain ⟨first, outcome, rest, rfl, hfirst, hrest⟩ := (Action.gives_bind_iff _ _ _ _).mp h
  cases hrest
  rw [List.append_nil]
  rcases hfirst.of_andThen with ⟨e, _, hfailed⟩ | ⟨observed, a, last, rfl, hobserved, hlast⟩
  · exact observe_blameless primary ctx d.adapter first _ hfailed
  · rw [hlast.of_lifted, List.append_nil]
    exact observe_blameless primary ctx d.adapter observed _ hobserved

/-- The error of a visit is due to the calls that failed in the work on the node. -/
theorem visit_faults (mode : PassMode) : Node.Faults (d.overheard.visit mode primary ctx) := by
  have hcheck := d.check_blameless primary ctx
  cases mode with
  | reconcile =>
    refine Node.faults_gate _ (hcheck .activation) _ _ (by nofun) _ ?_
    refine Node.faults_gate _ (hcheck .reconcilePrecondition) _ _ (by nofun) _ ?_
    refine Node.faults_bind (d.adapter.reconcile_blaming d.name primary ctx) _ (fun _ => rfl)
      fun operations => ?_
    exact Node.faults_gate _ (hcheck .ready) _ _ (by nofun) _ (Node.faults_done _ (fun _ => nofun))
  | cleanup =>
    refine Node.faults_gate _ (hcheck .activation) _ _ (by nofun) _ ?_
    refine Node.faults_gate _ (hcheck .cleanupReady) _ _ (by nofun) _ ?_
    exact Node.faults_bind (d.adapter.delete_blaming d.name primary ctx) _ (fun _ => rfl)
      fun operations => Node.faults_done _ (by nofun)

end Dependent
end Reconciliation
