import Reconciliation.Proofs.Dependent.Fence

/-!
What passes over owned objects leave alone. Sets of objects are found through their owner. A
single object is found through the identity that its template gives it; if nobody else holds that
identity, then no pass touches an object of anybody but the primary.
-/
namespace Reconciliation

namespace Owned

open Client

/-- Nobody else's object has the identity of the object. -/
abbrev Free (primary : ManagedObject) (earlier : Cluster) (o : ManagedObject) : Prop :=
  Cluster.FreeFor primary.id earlier o.id

/-- Writes at the identities that nobody else holds spare the objects of everybody else. -/
theorem fence_spares (primary : ManagedObject) (earlier : Cluster) :
    Fence primary (Cluster.Spares primary.id earlier) (Cluster.FreeFor primary.id earlier) where
  keyed _ hs := hs.keyed
  create _ hs o howned := hs.create o howned
  patch _ hs id hfree expected p := hs.patch id hfree expected p
  delete _ hs id hfree time := hs.delete id hfree time
  owned _ hs kind := hs.free_of_ownedBy kind

/-- Writes at other identities leave a stored object of anybody else alone. -/
theorem fence_stored (primary : ManagedObject) (id : ResourceId) (o : ManagedObject)
    (hforeign : o.owner ≠ some primary.id) :
    Fence primary (fun s => s.Keyed ∧ s.get? id = some o) (· ≠ id) := by
  have hchange : ∀ {s s' : Cluster} {other : ResourceId}, s.Keyed ∧ s.get? id = some o →
      other ≠ id → s.ChangesAt other (fun _ => True) s' → s'.Keyed ∧ s'.get? id = some o :=
    fun hs hne h => ⟨h.keyed hs.1, (h.elsewhere id (Ne.symm hne)).trans hs.2⟩
  refine ⟨fun _ hs => hs.1, fun s hs desired _ => ?_, fun s hs other hne expected p => ?_,
    fun s hs other hne time => ?_, fun s hs kind listed hlisted hid => ?_⟩
  · by_cases hid : desired.id = id
    · have hcontains : s.objects.contains desired.id = true := by
        rw [hid]
        exact Option.isSome_iff_exists.mpr ⟨o, hs.2⟩
      unfold Cluster.create
      rw [if_pos hcontains]
      exact hs
    · exact hchange hs hid (s.changesAt_create hs.1 _ desired trivial fun _ _ => trivial)
  · exact hchange hs hne (s.changesAt_patch hs.1 _ other (fun _ _ => trivial) expected p)
  · exact hchange hs hne (s.changesAt_delete hs.1 _ other (fun _ _ => trivial) time)
  · have hfree := (Cluster.spares_self primary.id s hs.1).free_of_ownedBy kind listed hlisted
    exact hforeign (hfree o (hid ▸ hs.2))

/-- An adapter for objects that the primary owns. Nobody else may hold the identity of a single
object that it writes. -/
inductive Backed (primary : ManagedObject) (earlier : Cluster) :
    Adapter plainInterface ManagedObject → Prop
  | object (access : Access) (kind : String) (template : Template)
      (hfree : access = .mutating → ∀ o, render kind template primary = .ok o →
        Free primary earlier o) : Backed primary earlier (object plain access kind template)
  | objects (access : Access) (kind : String) (template : SetTemplate) :
      Backed primary earlier (objects plain access kind template)

theorem Backed.fenced {primary : ManagedObject} {earlier : Cluster}
    {a : Adapter plainInterface ManagedObject} (h : Backed primary earlier a) :
    Fenced primary (Cluster.FreeFor primary.id earlier) a := by
  cases h with
  | object access kind template hfree => exact .object access kind template hfree
  | objects access kind template => exact .objects access kind template

theorem dependent_keeps (delay : Nat → ClusterCall → Cluster → Nat) (primary : ManagedObject)
    (earlier : Cluster) (d : Dependent plainInterface ManagedObject)
    (hbacked : Backed primary earlier d.adapter) (hlooks : LooksOnly d.condition?)
    (mode : PassMode) (ctx : Context) :
    d.toNode.Keeps (plainEnvironment delay) (Cluster.Spares primary.id earlier) mode primary
      ctx :=
  (fence_spares primary earlier).dependent delay d hbacked.fenced hlooks mode ctx

end Owned

namespace WorkflowPlan

open Client Owned

/-- However long the answers take and however far a pass over owned objects has come, every
object of anybody but the primary is still stored as it was. -/
theorem pass_spares_foreign (p : WorkflowPlan plainInterface) (w : Workflow plainInterface)
    (hw : p.build = .ok w) (deps : List (Dependent plainInterface ManagedObject))
    (hdeps : p.nodes = deps.map (·.toNode)) (primary : ManagedObject) (c : Cluster)
    (hkeyed : c.Keyed) (hbacked : ∀ d ∈ deps, Backed primary c d.adapter)
    (hlooks : ∀ d ∈ deps, LooksOnly d.condition?) (mode : PassMode) (ctx : Context)
    (delay : Nat → ClusterCall → Cluster → Nat) (fuel now : Nat) (id : ResourceId)
    (o : ManagedObject) (ho : c.get? id = some o) (hforeign : o.owner ≠ some primary.id) :
    ((w.pass mode primary ctx).finish (plainEnvironment delay) fuel now c).2.2.get? id =
      some o := by
  obtain ⟨hformed, hnodes⟩ := p.build_wellFormed w hw
  have hkeeps : ∀ n ∈ w.nodes, n.node.Keeps (plainEnvironment delay)
      (Cluster.Spares primary.id c) mode primary ctx := by
    intro n hn
    have hmem : n.node ∈ deps.map (·.toNode) := by
      rw [← hdeps, ← hnodes]
      exact List.mem_map_of_mem hn
    obtain ⟨d, hd, heq⟩ := List.mem_map.mp hmem
    rw [← heq]
    exact dependent_keeps delay primary c d (hbacked d hd) (hlooks d hd) mode ctx
  have hspares := (Pass.OnWay.finish hformed hkeeps fuel (Pass.onWay_pass hformed) now c
    (Cluster.spares_self primary.id c hkeyed)).1
  exact (hspares.others id o hforeign).mpr ho

/-- A primary that keeps its settings in one object and its pages in a set of objects. -/
def site : ManagedObject where
  id := ⟨"Site", some "shop", "main"⟩
  spec := .null

def settings (name : String) : Dependent plainInterface ManagedObject where
  name := "settings"
  adapter := Owned.object .plain .mutating "Settings" fun _ => .ok (name, .null)

def pages : Dependent plainInterface ManagedObject where
  name := "pages"
  dependsOn := ["settings"]
  adapter := Owned.objects .plain .mutating "Page" fun _ => .ok {}

def sitePlan (name : String) : WorkflowPlan plainInterface where
  name := "site"
  nodes := [(settings name).toNode, pages.toNode]

/-- Settings of another site, in the namespace that both share. -/
def otherSettings : ManagedObject where
  id := ⟨"Settings", some "shop", "common"⟩
  spec := .bool true
  version := ⟨1⟩
  generation := 1
  owner := some ⟨"Site", some "shop", "other"⟩

/-- A cluster with the settings of the other site and a page of this one. -/
def namespaceShop : Cluster :=
  (({} : Cluster).create otherSettings).2.create
    (wanted "Page" site "start" .null) |>.2

theorem namespaceShop_written : namespaceShop.Written :=
  (Cluster.Written.empty.answer 0 (.create otherSettings)).answer 0
    (.create (wanted "Page" site "start" .null))

/-- The page goes, the settings of the other site stay. -/
theorem pass_spares_foreign_cleanup :
    (∀ fuel,
      ((((sitePlan "own").ordered [0, 1]).pass .cleanup site { primary := site.id }).finish
        (plainEnvironment fun _ _ _ => 5) fuel 0 namespaceShop).2.2.get? otherSettings.id =
          some otherSettings) ∧
      ((((sitePlan "own").ordered [0, 1]).pass .cleanup site { primary := site.id }).finish
        (plainEnvironment fun _ _ _ => 5) 9 0 namespaceShop).2.2.get?
          ⟨"Page", some "shop", "start"⟩ = none := by
  have hstored : namespaceShop.get? otherSettings.id = some otherSettings := rfl
  have hbacked : ∀ d ∈ [settings "own", pages], Backed site namespaceShop d.adapter := by
    rw [List.forall_mem_cons, List.forall_mem_singleton]
    refine ⟨.object .mutating "Settings" (fun _ => .ok ("own", .null)) fun _ o ho o' ho' => ?_,
      .objects .mutating "Page" fun _ => .ok {}⟩
    rw [← Except.ok.inj ho] at ho'
    cases ho'
  have hlooks : ∀ d ∈ [settings "own", pages], LooksOnly d.condition? := by
    rw [List.forall_mem_cons, List.forall_mem_singleton]
    refine ⟨fun kind condition h => ?_, fun kind condition h => ?_⟩
    · cases h
    · cases h
  refine ⟨fun fuel => ?_, rfl⟩
  exact (sitePlan "own").pass_spares_foreign _ rfl [settings "own", pages] rfl site namespaceShop
    namespaceShop_written.keyed hbacked hlooks .cleanup { primary := site.id } _ fuel 0
    otherSettings.id otherSettings hstored (by decide)

/-- An object that is looked up by its name alone is deleted whoever owns it. -/
theorem shared_identity_deleted :
    namespaceShop.get? otherSettings.id = some otherSettings ∧
      otherSettings.owner ≠ some site.id ∧
      ((((sitePlan "common").ordered [0, 1]).pass .cleanup site { primary := site.id }).finish
        (plainEnvironment fun _ _ _ => 0) 1 0 namespaceShop).2.2.get? otherSettings.id =
          none :=
  ⟨rfl, by decide, rfl⟩

end WorkflowPlan
end Reconciliation
