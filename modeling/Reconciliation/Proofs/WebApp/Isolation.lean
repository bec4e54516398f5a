import Reconciliation.Proofs.Dependent.Ownership
import Reconciliation.Proofs.WebApp.Pass

/-!
Web applications side by side. The names that the templates of an application give end in a fixed
suffix or in a dash and digits, so two applications never render the same identity, however they
are named. The pods of an application are found through their owner, and nothing is created where
something is stored. So a pass for one application leaves alone what another one owns.
-/
namespace Reconciliation.WebApp

open Client Owned

theorem dash_not_mem_index (i : Nat) : '-' ∉ (toString i).toList := by
  intro h
  rw [Nat.toString_eq_repr, Nat.toList_repr] at h
  cases Nat.isDigit_of_mem_toDigits (by decide) (by decide) h

theorem eq_nil_of_append_index {between : List Char} {i j : Nat}
    (h : '-' :: (toString i).toList = between ++ '-' :: (toString j).toList) : between = [] := by
  cases between with
  | nil => rfl
  | cons first rest =>
    refine absurd ?_ (dash_not_mem_index i)
    rw [(List.cons.inj h).2]
    exact List.mem_append_right rest List.mem_cons_self

/-- The last dash parts a name from an index. -/
theorem eq_of_append_index {a b : String} {i j : Nat}
    (h : a ++ "-" ++ toString i = b ++ "-" ++ toString j) : a = b := by
  have hchars : a.toList ++ '-' :: (toString i).toList =
      b.toList ++ '-' :: (toString j).toList := by
    have hdash : "-".toList = ['-'] := rfl
    have hlists := congrArg String.toList h
    rwa [String.toList_append, String.toList_append, String.toList_append, String.toList_append,
      hdash, List.append_assoc, List.append_assoc, List.singleton_append,
      List.singleton_append] at hlists
  rw [← String.toList_inj]
  rcases List.append_eq_append_iff.mp hchars with ⟨between, hb, hrest⟩ | ⟨between, ha, hrest⟩
  · rw [hb, eq_nil_of_append_index hrest, List.append_nil]
  · rw [ha, eq_nil_of_append_index hrest, List.append_nil]

/-- The identities that the templates of an application render, with any number of pods. -/
inductive Rendered (o : ManagedObject) : ResourceId → Prop
  | config : Rendered o (configFor o).id
  | pod (i : Nat) : Rendered o (podId o i)
  | ingress : Rendered o (ingressFor o).id

section Names
variable {o p q : ManagedObject} {id : ResourceId}

theorem Rendered.ns_eq (h : Rendered o id) : id.ns = o.id.ns := by
  cases h <;> rfl

theorem Rendered.name_of_config (h : Rendered o id) (hkind : id.kind = "ConfigMap") :
    id.name = o.id.name ++ "-config" := by
  cases h with
  | config => rfl
  | pod i => exact absurd hkind (by decide : ¬"Pod" = "ConfigMap")
  | ingress => exact absurd hkind (by decide : ¬"Ingress" = "ConfigMap")

theorem Rendered.name_of_pod (h : Rendered o id) (hkind : id.kind = "Pod") :
    ∃ i : Nat, id.name = o.id.name ++ "-" ++ toString i := by
  cases h with
  | config => exact absurd hkind (by decide : ¬"ConfigMap" = "Pod")
  | pod i => exact ⟨i, rfl⟩
  | ingress => exact absurd hkind (by decide : ¬"Ingress" = "Pod")

theorem Rendered.name_of_ingress (h : Rendered o id) (hkind : id.kind = "Ingress") :
    id.name = o.id.name := by
  cases h with
  | config => exact absurd hkind (by decide : ¬"ConfigMap" = "Ingress")
  | pod i => exact absurd hkind (by decide : ¬"Pod" = "Ingress")
  | ingress => rfl

/-- An identity is rendered by the templates of one application at most. -/
theorem id_eq_of_rendered (hkind : p.id.kind = q.id.kind) (hp : Rendered p id)
    (hq : Rendered q id) : p.id = q.id := by
  have hns : p.id.ns = q.id.ns := hp.ns_eq.symm.trans hq.ns_eq
  have hname : p.id.name = q.id.name := by
    cases hp with
    | config => exact (String.append_left_inj "-config").mp (hq.name_of_config rfl)
    | pod i =>
      obtain ⟨j, hj⟩ := hq.name_of_pod rfl
      exact eq_of_append_index hj
    | ingress => exact hq.name_of_ingress rfl
  calc p.id = ⟨p.id.kind, p.id.ns, p.id.name⟩ := rfl
    _ = ⟨q.id.kind, q.id.ns, q.id.name⟩ := by rw [hkind, hns, hname]
    _ = q.id := rfl

end Names

/-- Whatever comes of a pass for one application, and however far it has come, the objects of
another one are stored as they were, where those are at identities that its own templates
render. -/
theorem pass_isolated (room : Nat) (p q : ManagedObject) (hkind : p.id.kind = q.id.kind)
    (hne : p.id ≠ q.id) (c : Cluster) (hkeyed : c.Keyed)
    (hrendered : ∀ id o, c.get? id = some o → o.owner = some q.id → Rendered q id)
    (mode : PassMode) (ctx : Context) (delay : Nat → ClusterCall → Cluster → Nat)
    (fuel now : Nat) (id : ResourceId) (o : ManagedObject) (ho : c.get? id = some o)
    (howned : o.owner = some q.id) :
    (((workflow room).pass mode p ctx).finish (plainEnvironment delay) fuel now c).2.2.get? id =
      some o := by
  have hforeign : o.owner ≠ some p.id := fun h => hne (Option.some.inj (h.symm.trans howned))
  have hopen : ∀ other, Rendered p other → other ≠ id := by
    rintro other hp rfl
    exact hne (id_eq_of_rendered hkind hp (hrendered other o ho howned))
  have hfence := fence_stored p id o hforeign
  have hkept : ∀ n ∈ [configNode plain, podsNode plain, ingressNode plain],
      n.Keeps (plainEnvironment delay) (fun s => s.Keyed ∧ s.get? id = some o) mode p ctx := by
    rw [List.forall_mem_cons, List.forall_mem_cons, List.forall_mem_singleton]
    refine ⟨hfence.dependent delay _ (.object .mutating "ConfigMap" configTemplate ?_)
        (fun kind condition h => ?_) mode ctx,
      hfence.dependent delay _ (.objects .mutating "Pod" podTemplate)
        (fun kind condition h => ?_) mode ctx,
      hfence.dependent delay _ (.object .mutating "Ingress" ingressTemplate ?_)
        (fun kind condition h => ?_) mode ctx⟩
    · rintro _ wanted ⟨⟩
      exact hopen _ .config
    · cases kind with
      | ready =>
        obtain rfl := Option.some.inj h
        exact fun _ _ _ => trivial
      | _ => cases h
    · cases h
    · rintro _ wanted ⟨⟩
      exact hopen _ .ingress
    · cases kind with
      | reconcilePrecondition =>
        obtain rfl := Option.some.inj h
        exact fun _ _ _ => trivial
      | _ => cases h
  exact (((workflowPlan plain).withMaxConcurrency room).pass_keeps (workflow room)
    (build_workflowPlan room) hkept fuel now c ⟨hkeyed, ho⟩).2

/-- Two applications, the second one with the name of the first pod of the first one. -/
def shop : ManagedObject where
  id := ⟨WebApp.kind, some "default", "shop"⟩
  spec := .null

def annex : ManagedObject where
  id := ⟨WebApp.kind, some "default", "shop-0"⟩
  spec := .null

/-- A cluster with a pod of the shop, and a config map and an ingress of the annex. -/
def neighbours : Cluster :=
  ((({} : Cluster).create (wanted "Pod" shop "shop-0" (podSpec shop))).2.create
    (configFor annex)).2.create (ingressFor annex) |>.2

theorem neighbours_written : neighbours.Written :=
  ((Cluster.Written.empty.answer 0 (.create (wanted "Pod" shop "shop-0" (podSpec shop)))).answer 0
    (.create (configFor annex))).answer 0 (.create (ingressFor annex))

theorem neighbours_rendered (id : ResourceId) (o : ManagedObject)
    (ho : neighbours.get? id = some o) (howned : o.owner = some annex.id) : Rendered annex id := by
  have hentries : ∀ e ∈ neighbours.objects.entries, e.2.owner = some annex.id →
      Rendered annex e.1 := by
    change ∀ e ∈ [(_, _), (_, _), (_, _)], _
    rw [List.forall_mem_cons, List.forall_mem_cons, List.forall_mem_singleton]
    exact ⟨fun _ => .config, fun _ => .ingress, fun h => absurd h (by decide)⟩
  exact hentries (id, o) ((neighbours.objects.get?_eq_some_iff id o).mp ho) howned

/-- The pod of the shop goes; the ingress of the annex stays, though it has the name of the pod. -/
theorem pass_isolated_namesake :
    (∀ fuel, (((workflow 4).pass .cleanup shop { primary := shop.id }).finish
        (plainEnvironment fun _ _ _ => 5) fuel 0 neighbours).2.2.get? (ingressFor annex).id =
          neighbours.get? (ingressFor annex).id) ∧
      (((workflow 4).pass .cleanup shop { primary := shop.id }).finish
        (plainEnvironment fun _ _ _ => 5) 9 0 neighbours).2.2.get? (podId shop 0) = none := by
  refine ⟨fun fuel => ?_, rfl⟩
  have hkept := pass_isolated 4 shop annex rfl (by decide) neighbours neighbours_written.keyed
    neighbours_rendered .cleanup { primary := shop.id } (fun _ _ _ => 5) fuel 0
    (ingressFor annex).id _ rfl rfl
  exact hkept

end Reconciliation.WebApp
