import Reconciliation.Dependent.Owned
import Reconciliation.Proofs.Cluster.Ownership
import Reconciliation.Proofs.Workflow.Invariant

/-!
What passes over owned objects keep. Sets of objects are found through their owner, a single
object through the identity that its template gives it, and both are created without writing over
anything. So a pass keeps every invariant of the cluster that such writes keep.
-/
namespace Reconciliation

namespace Client

/-- A cluster whose answers take any time. -/
def plainEnvironment (delay : Nat → ClusterCall → Cluster → Nat) :
    Environment plainInterface Cluster where
  issue := fun now c s => (delay now c s, s)
  answer := ClusterCall.answer

end Client

namespace ClusterCall

/-- Calls that leave the cluster as it is. -/
def Reads : ClusterCall → Prop
  | get _ | ownedBy .. => True
  | create _ | patch .. | delete _ => False

theorem reads_state (now : Nat) (c : ClusterCall) (h : c.Reads) (s : Cluster) :
    (c.answer now s).2 = s := by
  cases c with
  | get id => rfl
  | ownedBy owner kind => rfl
  | _ => cases h

end ClusterCall

namespace Action
variable {α β : Type}

/-- The action looks at the cluster without changing it. -/
def OnlyReads : Action Client.plainInterface α → Prop
  | done _ => True
  | call c k => ClusterCall.Reads c ∧ ∀ r, (k r).OnlyReads

theorem OnlyReads.bind {t : Action Client.plainInterface α}
    {f : α → Action Client.plainInterface β} (ht : t.OnlyReads) (hf : ∀ a, (f a).OnlyReads) :
    (t.bind f).OnlyReads := by
  induction t with
  | done a => exact hf a
  | call c k ih => exact ⟨ht.1, fun r => ih r (ht.2 r)⟩

theorem OnlyReads.andThen {ε : Type} {t : Action Client.plainInterface (Except ε α)}
    {f : α → Action Client.plainInterface (Except ε β)} (ht : t.OnlyReads)
    (hf : ∀ a, (f a).OnlyReads) : (t.andThen f).OnlyReads := by
  refine ht.bind fun outcome => ?_
  cases outcome with
  | ok a => exact hf a
  | error e => trivial

end Action

/-- Only actual members are updated. -/
theorem BulkPlan.mem_actual_of_mem_update {R : Type} (agrees : R → R → Bool)
    (actual desired : SortedMap String R) (e : String × R × R)
    (h : e ∈ (between agrees actual desired).update) : (e.1, e.2.1) ∈ actual.entries := by
  obtain ⟨member, hmember, heq⟩ := List.mem_filterMap.mp h
  split at heq
  · split at heq
    · cases heq
    · rw [← Option.some.inj heq]
      exact hmember
  · cases heq

namespace Owned

open Client

/-- The writes of a primary that keep an invariant of the cluster: it may create objects of its
own anywhere, and change what is stored at an open identity, as that of each of its objects is. -/
structure Fence (primary : ManagedObject) (inv : Cluster → Prop) (Open : ResourceId → Prop) :
    Prop where
  keyed : ∀ s, inv s → s.Keyed
  create : ∀ s, inv s → ∀ o : ManagedObject, o.owner = some primary.id → inv (s.create o).2
  patch : ∀ s, inv s → ∀ id, Open id → ∀ expected p, inv (s.patch id expected p).2
  delete : ∀ s, inv s → ∀ id, Open id → ∀ time, inv (s.delete id time).2
  owned : ∀ s, inv s → ∀ kind, ∀ o ∈ s.ownedBy primary.id kind, Open o.id

theorem render_owner (primary : ManagedObject) (kind : String) (template : Template)
    (o : ManagedObject) (h : render kind template primary = .ok o) :
    o.owner = some primary.id := by
  unfold render at h
  cases htemplate : template primary with
  | error e =>
    rw [htemplate] at h
    cases h
  | ok named =>
    rw [htemplate] at h
    rw [← Except.ok.inj h]
    rfl

theorem renderSet_owner (primary : ManagedObject) (kind : String) (template : SetTemplate)
    (os : SortedMap String ManagedObject) (h : renderSet kind template primary = .ok os) :
    ∀ e ∈ os.entries, e.2.owner = some primary.id := by
  unfold renderSet at h
  cases htemplate : template primary with
  | error e =>
    rw [htemplate] at h
    cases h
  | ok specs =>
    rw [htemplate] at h
    rw [← Except.ok.inj h]
    intro e he
    obtain ⟨spec, _, rfl⟩ := List.mem_map.mp he
    rfl

theorem mem_of_mem_ofList {α : Type} (l : List (String × α)) (e : String × α)
    (h : e ∈ (SortedMap.ofList l).entries) : e ∈ l := by
  have hfold : ∀ (l : List (String × α)) (m : SortedMap String α),
      e ∈ (l.foldl (fun m e => m.insert e.1 e.2) m).entries → e ∈ m.entries ∨ e ∈ l := by
    intro l
    induction l with
    | nil => exact fun m h => Or.inl h
    | cons first rest ih =>
      intro m h
      rcases ih _ h with hold | hrest
      · rcases SortedMap.mem_insertEntry hold with rfl | hm
        · exact Or.inr List.mem_cons_self
        · exact Or.inl hm
      · exact Or.inr (List.mem_cons_of_mem first hrest)
  rcases hfold l SortedMap.empty h with hempty | hl
  · cases hempty
  · exact hl

section Parts
variable (delay : Nat → ClusterCall → Cluster → Nat) {primary : ManagedObject}
  {inv : Cluster → Prop} {Open : ResourceId → Prop}

/-- The action keeps the invariant. -/
abbrev Keeping {α : Type} (inv : Cluster → Prop) (post : α → Prop) (t : Action plainInterface α) :
    Prop :=
  t.Ensures (plainEnvironment delay) inv post

theorem onlyReads_keeping {α : Type} (t : Action plainInterface α) (h : t.OnlyReads) :
    Keeping delay inv (fun _ => True) t := by
  induction t with
  | done a => trivial
  | call c k ih =>
    refine ⟨fun _ _ hs => hs, fun now s hs => ⟨?_, ih _ (h.2 _)⟩⟩
    have hstate : ((plainEnvironment delay).answer now c s).2 = s :=
      ClusterCall.reads_state now c h.1 s
    rw [hstate]
    exact hs

section Writes
variable (hfence : Fence primary inv Open)
include hfence

/-- What is found has the identity that was asked for. -/
theorem get_keeping (id : ResourceId) :
    Keeping delay inv (fun found => ∀ o, found = some o → o.id = id) (plain.get id) :=
  ⟨fun _ _ hs => hs, fun _ s hs => ⟨hs, hfence.keyed s hs id⟩⟩

theorem ownedBy_keeping (kind : String) :
    Keeping delay inv (fun os => ∀ o ∈ os, Open o.id) (plain.ownedBy primary.id kind) :=
  ⟨fun _ _ hs => hs, fun _ s hs => ⟨hs, hfence.owned s hs kind⟩⟩

theorem create_keeping (desired : ManagedObject) (howned : desired.owner = some primary.id) :
    Keeping delay inv (IfOk fun _ => True) (create plain desired) := by
  have hcreate : Keeping delay inv (IfOk fun _ => True) (plain.create desired) :=
    ⟨fun _ _ hs => hs, fun _ s hs => ⟨hfence.create s hs desired howned, ifOk_true _⟩⟩
  exact hcreate.andThen fun _ _ => trivial

theorem update_keeping (actual desired : ManagedObject) (hopen : Open actual.id) :
    Keeping delay inv (IfOk fun _ => True) (update plain actual desired) := by
  have hpatch : Keeping delay inv (IfOk fun _ => True)
      (plain.patch actual.id actual.version (.setSpec desired.spec none)) :=
    ⟨fun _ _ hs => hs, fun _ s hs => ⟨hfence.patch s hs actual.id hopen _ _, ifOk_true _⟩⟩
  exact hpatch.andThen fun _ _ => trivial

theorem delete_keeping (actual : ManagedObject) (hopen : Open actual.id) :
    Keeping delay inv (IfOk fun _ => True) (delete plain actual) := by
  have hdelete : Keeping delay inv (fun _ => True) (plain.delete actual.id) :=
    ⟨fun _ _ hs => hs,
      fun now s hs => ⟨hfence.delete s hs actual.id hopen (.ofMillis now), trivial⟩⟩
  exact hdelete.bind fun outcome _ => ifOk_true _

/-- A single object is looked up under the identity that it would be created with. -/
theorem secondary_keeping (kind : String) (template : Template)
    (hopen : ∀ o, render kind template primary = .ok o → Open o.id) :
    Keeping delay inv (IfOk fun found => ∀ o, found = some o → Open o.id)
      (secondary plain kind template primary) := by
  unfold secondary
  cases hrender : render kind template primary with
  | error e => trivial
  | ok desired =>
    refine (get_keeping delay hfence desired.id).bind fun found hfound => ?_
    intro o ho
    have hid : o.id = desired.id := hfound o ho
    rw [hid]
    exact hopen desired hrender

/-- The members of a set are found through their owner. -/
theorem secondaries_keeping (kind : String) :
    Keeping delay inv (IfOk fun os => ∀ e ∈ os.entries, Open e.2.id)
      (secondaries plain kind primary) := by
  refine (ownedBy_keeping delay hfence kind).bind fun os hos => ?_
  intro e he
  obtain ⟨o, ho, rfl⟩ := List.mem_map.mp (mem_of_mem_ofList _ e he)
  exact hos o ho

/-- The work on one object writes under the identity that the template gives it. -/
theorem reconcileSingleton_keeping (kind : String) (template : Template) (ctx : Context)
    (hopen : ∀ o, render kind template primary = .ok o → Open o.id) :
    Keeping delay inv (IfOk fun _ => True)
      (Adapter.reconcileSingleton (secondary plain kind template primary)
        (objectWrites plain kind template) primary ctx) := by
  have hdesired : Keeping delay inv
      (IfOk fun desired => render kind template primary = .ok desired)
      ((objectWrites plain kind template).desired primary ctx) := by
    change IfOk _ (render kind template primary)
    cases render kind template primary with
    | ok desired => rfl
    | error e => trivial
  refine hdesired.andThen fun desired hrender => ?_
  refine (secondary_keeping delay hfence kind template hopen).andThen fun found hfound => ?_
  cases found with
  | none =>
    have howned := render_owner primary kind template desired hrender
    exact (create_keeping delay hfence desired howned).andThen fun _ _ => trivial
  | some actual =>
    dsimp only
    split
    · trivial
    · exact (update_keeping delay hfence actual desired (hfound actual rfl)).andThen
        fun _ _ => trivial

theorem deleteSingleton_keeping (kind : String) (template : Template) (ctx : Context)
    (hopen : ∀ o, render kind template primary = .ok o → Open o.id) :
    Keeping delay inv (IfOk fun _ => True)
      (Adapter.deleteSingleton (secondary plain kind template primary)
        (objectWrites plain kind template) primary ctx) := by
  refine (secondary_keeping delay hfence kind template hopen).andThen fun found hfound => ?_
  cases found with
  | none => trivial
  | some actual =>
    exact (delete_keeping delay hfence actual (hfound actual rfl)).andThen fun _ _ => trivial

/-- Members are written under the identities under which they were found, or created. -/
theorem apply_keeping (kind : String) (template : SetTemplate) (name : String) (ctx : Context)
    (plan : BulkPlan ManagedObject)
    (hdelete : ∀ e ∈ plan.delete, Open e.2.id)
    (hcreate : ∀ e ∈ plan.create, e.2.owner = some primary.id)
    (hupdate : ∀ e ∈ plan.update, Open e.2.1.id) :
    (plan.apply name ((setWrites plain kind template).on primary ctx)).Ensures
      (plainEnvironment delay) inv (IfOk fun _ => True) := by
  refine ⟨fun m hm => ?_, fun results => ifOk_true _⟩
  rw [BulkPlan.members, List.mem_append, List.mem_append, List.mem_map, List.mem_map,
    List.mem_map] at hm
  rcases hm with (⟨e, he, rfl⟩ | ⟨e, he, rfl⟩) | ⟨e, he, rfl⟩
  · exact (delete_keeping delay hfence e.2 (hdelete e he)).weaken fun _ _ => trivial
  · exact (create_keeping delay hfence e.2 (hcreate e he)).weaken fun _ _ => trivial
  · exact (update_keeping delay hfence e.2.1 e.2.2 (hupdate e he)).weaken fun _ _ => trivial

/-- A pass over a set of objects writes on the primary's own objects and on absent ones only. -/
theorem bulk_reconcile_keeping (kind : String) (template : SetTemplate) (name : String)
    (ctx : Context) :
    ((objects plain .mutating kind template).reconcile name primary ctx).Ensures
      (plainEnvironment delay) inv (IfOk fun _ => True) := by
  have hdesired : Keeping delay inv
      (IfOk fun desired : SortedMap String ManagedObject =>
        ∀ e ∈ desired.entries, e.2.owner = some primary.id)
      ((setWrites plain kind template).desired primary ctx) := by
    change IfOk _ (renderSet kind template primary)
    cases hrender : renderSet kind template primary with
    | ok desired => exact renderSet_owner primary kind template desired hrender
    | error e => trivial
  refine (Task.ensures_ofAction hdesired).andThen fun desired howned => ?_
  refine (Task.ensures_ofAction (secondaries_keeping delay hfence kind)).andThen
    fun actual hopen => ?_
  refine apply_keeping delay hfence kind template name ctx _ (fun e he => ?_)
    (fun e he => ?_) fun e he => ?_
  · exact hopen e (List.mem_filter.mp he).1
  · exact howned e (List.mem_filter.mp he).1
  · exact hopen _ (BulkPlan.mem_actual_of_mem_update _ actual desired e he)

theorem bulk_delete_keeping (kind : String) (template : SetTemplate) (name : String)
    (ctx : Context) :
    ((objects plain .mutating kind template).delete name primary ctx).Ensures
      (plainEnvironment delay) inv (IfOk fun _ => True) := by
  refine (Task.ensures_ofAction (secondaries_keeping delay hfence kind)).andThen
    fun observed hopen => ?_
  exact apply_keeping delay hfence kind template name ctx _ hopen
    (fun _ he => absurd he List.not_mem_nil) fun _ he => absurd he List.not_mem_nil

end Writes

theorem secondary_onlyReads (kind : String) (template : Template) :
    (secondary plain kind template primary).OnlyReads := by
  unfold secondary
  cases render kind template primary with
  | ok o => exact ⟨trivial, fun _ => trivial⟩
  | error e => trivial

theorem secondaries_onlyReads (kind : String) : (secondaries plain kind primary).OnlyReads :=
  ⟨trivial, fun _ => trivial⟩

/-- An adapter for objects that the primary owns. The identity of a single object that it writes
is open. -/
inductive Fenced (primary : ManagedObject) (Open : ResourceId → Prop) :
    Adapter plainInterface ManagedObject → Prop
  | object (access : Access) (kind : String) (template : Template)
      (hopen : access = .mutating → ∀ o, render kind template primary = .ok o → Open o.id) :
      Fenced primary Open (object plain access kind template)
  | objects (access : Access) (kind : String) (template : SetTemplate) :
      Fenced primary Open (objects plain access kind template)

section Adapters
variable {a : Adapter plainInterface ManagedObject} (h : Fenced primary Open a)
include h

theorem Fenced.observe_onlyReads (ctx : Context) : (a.observe primary ctx).OnlyReads := by
  cases h with
  | object access kind template hopen =>
    exact (secondary_onlyReads kind template).andThen fun _ => trivial
  | objects access kind template => exact (secondaries_onlyReads kind).andThen fun _ => trivial

/-- What stays within a fence keeps the invariant, whatever adapter it is. -/
theorem Fenced.reconcile_keeping (hfence : Fence primary inv Open) (name : String)
    (ctx : Context) :
    (a.reconcile name primary ctx).Ensures (plainEnvironment delay) inv fun _ => True := by
  have hreads : ∀ t : Action plainInterface (Except Error Operations), t.OnlyReads →
      (Task.ofAction t : Task plainInterface Error _).Ensures (plainEnvironment delay) inv
        fun _ => True :=
    fun t ht => Task.ensures_ofAction (onlyReads_keeping delay t ht)
  cases h with
  | object access kind template hopen =>
    cases access with
    | readOnly =>
      exact hreads _ ((secondary_onlyReads kind template).andThen fun _ => trivial)
    | mutating =>
      have hwork := reconcileSingleton_keeping delay hfence kind template ctx (hopen rfl)
      exact Task.ensures_ofAction (hwork.weaken fun _ _ => trivial)
  | objects access kind template =>
    cases access with
    | readOnly => exact hreads _ ((secondaries_onlyReads kind).andThen fun _ => trivial)
    | mutating =>
      exact (bulk_reconcile_keeping delay hfence kind template name ctx).weaken
        fun _ _ => trivial

/-- So do deletes. -/
theorem Fenced.delete_keeping (hfence : Fence primary inv Open) (name : String) (ctx : Context) :
    (a.delete name primary ctx).Ensures (plainEnvironment delay) inv fun _ => True := by
  cases h with
  | object access kind template hopen =>
    cases access with
    | readOnly => trivial
    | mutating =>
      have hwork := deleteSingleton_keeping delay hfence kind template ctx (hopen rfl)
      exact Task.ensures_ofAction (hwork.weaken fun _ _ => trivial)
  | objects access kind template =>
    cases access with
    | readOnly => trivial
    | mutating =>
      exact (bulk_delete_keeping delay hfence kind template name ctx).weaken fun _ _ => trivial

end Adapters
end Parts

/-- Conditions that look at the cluster without changing it. -/
def LooksOnly (condition? : ConditionKind → Option (Condition plainInterface ManagedObject)) :
    Prop :=
  ∀ kind condition, condition? kind = some condition →
    ∀ primary observed ctx, (condition primary observed ctx).OnlyReads

/-- A dependent within the fence keeps the invariant with all that its node may do. -/
theorem Fence.dependent (delay : Nat → ClusterCall → Cluster → Nat) {primary : ManagedObject}
    {inv : Cluster → Prop} {Open : ResourceId → Prop} (hfence : Fence primary inv Open)
    (d : Dependent plainInterface ManagedObject) (hfenced : Fenced primary Open d.adapter)
    (hlooks : LooksOnly d.condition?) (mode : PassMode) (ctx : Context) :
    d.toNode.Keeps (plainEnvironment delay) inv mode primary ctx := by
  refine ⟨fun kind evaluate hevaluate => ?_, fun _ => ?_, ?_⟩
  · obtain ⟨condition, hcondition, rfl⟩ := Option.map_eq_some_iff.mp hevaluate
    refine onlyReads_keeping delay _ (Action.OnlyReads.bind ?_ fun _ => trivial)
    exact (hfenced.observe_onlyReads ctx).andThen fun observed =>
      hlooks kind condition hcondition primary observed ctx
  · exact hfenced.reconcile_keeping delay hfence d.name ctx
  · exact hfenced.delete_keeping delay hfence d.name ctx

end Owned

/-- However long the answers take and however far a pass has come, an invariant that all nodes keep
still holds. -/
theorem WorkflowPlan.pass_keeps {I : Interface} {σ : Type} (p : WorkflowPlan I) (w : Workflow I)
    (hw : p.build = .ok w) {env : Environment I σ} {inv : σ → Prop} {mode : PassMode}
    {primary : ManagedObject} {ctx : Context}
    (hkeeps : ∀ n ∈ p.nodes, n.Keeps env inv mode primary ctx) (fuel now : Nat) (s : σ)
    (hs : inv s) : inv ((w.pass mode primary ctx).finish env fuel now s).2.2 := by
  obtain ⟨hformed, hnodes⟩ := p.build_wellFormed w hw
  have hkept : ∀ n ∈ w.nodes, n.node.Keeps env inv mode primary ctx := by
    intro n hn
    refine hkeeps n.node ?_
    rw [← hnodes]
    exact List.mem_map_of_mem hn
  exact (Pass.OnWay.finish hformed hkept fuel (Pass.onWay_pass hformed) now s hs).1

end Reconciliation
