import Reconciliation.Proofs.Dependent.Convergence
import Reconciliation.Proofs.Json.Equality
import Reconciliation.Proofs.Workflow.Prompt
import Reconciliation.WebApp.Workflow

/-!
The dependents of a web application, each brought to what the application asks for. A visit of a
node leaves its objects as the templates render them, and changes nothing where they are so
already. Objects of other kinds are left alone. The pods are compared by their names, so the
application owns no pod afterwards that it does not ask for.
-/
namespace Reconciliation.WebApp

open Client Owned

/-- The config map that the application asks for. -/
def configFor (o : ManagedObject) : ManagedObject :=
  wanted "ConfigMap" o (configName o)
    (.object [("greeting", (o.spec.get? "greeting").getD (.str "hello"))])

/-- The pods that the application asks for, by name. -/
def podsFor (o : ManagedObject) (n : Nat) : SortedMap String ManagedObject :=
  (SortedMap.ofList ((List.range n).map fun i => (podName o i, podSpec o))).map
    fun name spec => wanted "Pod" o name spec

/-- The ingress of the application while it is exposed. -/
def ingressFor (o : ManagedObject) : ManagedObject :=
  wanted "Ingress" o o.id.name (.object [("backend", .str o.id.name), ("port", .nat 8080)])

theorem reflexive_configFor (o : ManagedObject) (h : o.spec.Reflexive) :
    (configFor o).spec.Reflexive := by
  refine Json.reflexive_object _ (List.forall_mem_singleton.mpr ?_)
  change ((o.spec.get? "greeting").getD (.str "hello")).Reflexive
  cases hgreeting : o.spec.get? "greeting" with
  | none => exact Json.reflexive_str "hello"
  | some greeting => exact h.get? "greeting" greeting hgreeting

theorem reflexive_podSpec (o : ManagedObject) : (podSpec o).Reflexive := by
  refine Json.reflexive_object _ ?_
  rw [List.forall_mem_cons, List.forall_mem_singleton]
  exact ⟨Json.reflexive_str _, Json.reflexive_str _⟩

theorem reflexive_ingressFor (o : ManagedObject) : (ingressFor o).spec.Reflexive := by
  refine Json.reflexive_object _ ?_
  rw [List.forall_mem_cons, List.forall_mem_singleton]
  exact ⟨Json.reflexive_str _, Json.reflexive_nat 8080⟩

/-- All pods that the application asks for have the same spec; only their names differ. -/
theorem get?_podsFor (o : ManagedObject) (n : Nat) (name : String) (want : ManagedObject) :
    (podsFor o n).get? name = some want ↔
      (∃ i < n, podName o i = name) ∧ want = wanted "Pod" o name (podSpec o) := by
  have hmem : ∀ spec, (name, spec) ∈ ((List.range n).map fun i => (podName o i, podSpec o)) →
      (∃ i < n, podName o i = name) ∧ spec = podSpec o := by
    intro spec hspec
    obtain ⟨i, hi, heq⟩ := List.mem_map.mp hspec
    obtain ⟨hname, rfl⟩ := Prod.mk.inj heq
    exact ⟨⟨i, List.mem_range.mp hi, hname⟩, rfl⟩
  unfold podsFor
  rw [SortedMap.get?_map, Option.map_eq_some_iff]
  constructor
  · rintro ⟨spec, hspec, rfl⟩
    rw [SortedMap.get?_eq_some_iff] at hspec
    obtain ⟨hi, rfl⟩ := hmem spec (mem_of_mem_ofList _ _ hspec)
    exact ⟨hi, rfl⟩
  · rintro ⟨⟨i, hi, rfl⟩, rfl⟩
    have hlisted := List.mem_map_of_mem (f := fun i => (podName o i, podSpec o))
      (List.mem_range.mpr hi)
    obtain ⟨spec, hentry⟩ := exists_mem_ofList _ _ hlisted
    obtain ⟨_, rfl⟩ := hmem spec (mem_of_mem_ofList _ _ hentry)
    exact ⟨_, (SortedMap.get?_eq_some_iff _ _ _).mpr hentry, rfl⟩

theorem renderSet_podTemplate (o : ManagedObject) (n : Nat) (hn : replicas o = .ok n) :
    renderSet "Pod" podTemplate o = .ok (podsFor o n) := by
  unfold renderSet podTemplate
  rw [hn]
  rfl

/-- The identity of the pod with that index. -/
def podId (o : ManagedObject) (i : Nat) : ResourceId := o.id.sibling "Pod" (podName o i)

theorem podName_injective (o : ManagedObject) : Function.Injective (podName o) := by
  intro i j h
  have hdigits : (toString i).toList = (toString j).toList :=
    congrArg String.toList ((String.append_right_inj _).mp h)
  rw [Nat.toString_eq_repr, Nat.toString_eq_repr, Nat.toList_repr, Nat.toList_repr] at hdigits
  rw [← Nat.ofDigitChars_ten_toDigits (n := i), hdigits, Nat.ofDigitChars_ten_toDigits]

theorem podId_injective (o : ManagedObject) : Function.Injective (podId o) := fun _ _ h =>
  podName_injective o (congrArg ResourceId.name h)

section Pods
variable {o : ManagedObject} {n : Nat} {c : Cluster} (hc : c.Keyed)
  (h : Keeps o "Pod" (podsFor o n) c)
include hc h

/-- Every pod that the application owns is one that it asks for. -/
theorem mem_pods (pod : ManagedObject) (hpod : pod ∈ c.ownedBy o.id "Pod") :
    ∃ i < n, pod.id = podId o i ∧ (pod.spec == podSpec o) = true := by
  obtain ⟨hstored, hkind, howned⟩ := (hc.mem_ownedBy_iff _ _ _).mp hpod
  have hid : pod.id = o.id.sibling "Pod" pod.id.name := by
    rw [← hkind, ResourceId.sibling, ← h.near pod hpod]
  have hfits := h.fits pod.id.name
  rw [← hid] at hfits
  cases hwanted : (podsFor o n).get? pod.id.name with
  | none =>
    rw [hwanted] at hfits
    exact absurd howned (hfits pod hstored)
  | some want =>
    obtain ⟨⟨i, hi, hname⟩, rfl⟩ := (get?_podsFor o n pod.id.name want).mp hwanted
    rw [hwanted] at hfits
    obtain ⟨found, hfound, _, hagrees⟩ := hfits
    obtain rfl := Option.some.inj (hstored.symm.trans hfound)
    exact ⟨i, hi, by rw [podId, hname, ← hid], hagrees⟩

/-- Every pod that the application asks for is among those that it owns. -/
theorem exists_pod (i : Nat) (hi : i < n) : ∃ pod ∈ c.ownedBy o.id "Pod", pod.id = podId o i := by
  have hfits := h.fits (podName o i)
  rw [(get?_podsFor o n (podName o i) _).mpr ⟨⟨i, hi, rfl⟩, rfl⟩] at hfits
  obtain ⟨pod, hstored, howned, _⟩ := hfits
  have hid := hc _ _ hstored
  refine ⟨pod, (hc.mem_ownedBy_iff _ _ _).mpr ⟨hid ▸ hstored, ?_, howned⟩, hid⟩
  rw [hid]
  rfl

/-- The pods of the application are those with an index below the number of replicas. -/
theorem pods_perm :
    ((c.ownedBy o.id "Pod").map (·.id)).Perm ((List.range n).map (podId o)) := by
  refine (List.perm_ext_iff_of_nodup (hc.nodup_ownedBy o.id "Pod")
    (List.nodup_range.map (podId_injective o))).mpr fun id => ?_
  rw [List.mem_map, List.mem_map]
  constructor
  · rintro ⟨pod, hpod, rfl⟩
    obtain ⟨i, hi, hid, _⟩ := mem_pods hc h pod hpod
    exact ⟨i, List.mem_range.mpr hi, hid.symm⟩
  · rintro ⟨i, hi, rfl⟩
    obtain ⟨pod, hpod, hid⟩ := exists_pod hc h i (List.mem_range.mp hi)
    exact ⟨pod, hpod, hid⟩

end Pods
section Visits
variable {c : Cluster} (htame : c.Tame) (now : Nat) (o : ManagedObject) (ctx : Context)
include htame

/-- A visit of the config map leaves it as asked for, and it is ready at once. -/
theorem config_visit_run (hspec : o.spec.Reflexive) :
    ∃ operations c', ((configNode plain).visit .reconcile o ctx).run (plainPrompt.answer now) c =
        (.succeeded operations, c') ∧
      c.Turns (configFor o).id (fun found => ∃ owner, Meets (configFor o) owner found) c' ∧
      ((∃ owner, Meets (configFor o) owner (c.get? (configFor o).id)) → c' = c) := by
  obtain ⟨operations, c', hrun, hturns, hquiet⟩ := object_reconcile_run htame now "ConfigMap"
    configTemplate "config" o ctx (configFor o) rfl (reflexive_configFor o hspec)
  obtain ⟨_, found, hfound, _⟩ := hturns.there
  refine ⟨operations, c', ?_, hturns, hquiet⟩
  refine (Task.run_bind _ _ hrun).trans (Node.gate_run_open _ _ _ _ ?_)
  change (Except.ok (c'.get? (configFor o).id).isSome, c') = _
  rw [hfound]
  rfl

/-- A visit of the pods leaves as many of them as there are to be replicas. -/
theorem pods_visit_run (n : Nat) (hn : replicas o = .ok n)
    (h : Attainable o "Pod" (podsFor o n) c) :
    ∃ operations c', ((podsNode plain).visit .reconcile o ctx).run (plainPrompt.answer now) c =
        (.succeeded operations, c') ∧
      c'.Tame ∧ Keeps o "Pod" (podsFor o n) c' ∧
      (∀ id, id.kind ≠ "Pod" → c'.get? id = c.get? id) ∧
      (Keeps o "Pod" (podsFor o n) c → c' = c) := by
  obtain ⟨operations, c', hrun, hkeeps⟩ := objects_reconcile_run htame "Pod" o h podTemplate ctx
    now "pods" (renderSet_podTemplate o n hn)
  exact ⟨operations, c', Task.run_bind _ _ hrun, hkeeps⟩

/-- A visit of the ingress of an exposed application leaves it as asked for. -/
theorem ingress_visit_run (hexposed : isExposed o = true) :
    ∃ operations c', ((ingressNode plain).visit .reconcile o ctx).run (plainPrompt.answer now) c =
        (.succeeded operations, c') ∧
      c.Turns (ingressFor o).id (fun found => ∃ owner, Meets (ingressFor o) owner found) c' ∧
      ((∃ owner, Meets (ingressFor o) owner (c.get? (ingressFor o).id)) → c' = c) := by
  obtain ⟨operations, c', hrun, hturns⟩ := object_reconcile_run htame now "Ingress"
    ingressTemplate "ingress" o ctx (ingressFor o) rfl (reflexive_ingressFor o)
  refine ⟨operations, c', (Node.gate_run_open _ _ _ _ ?_).trans (Task.run_bind _ _ hrun), hturns⟩
  change (Except.ok (isExposed o), c) = _
  rw [hexposed]

/-- The cleanup of the ingress leaves none. That nobody else holds it is needed: the deletion would
only mark it then. -/
theorem ingress_removal_run
    (hfree : ∀ found, c.get? (ingressFor o).id = some found → found.finalizers.isEmpty = true) :
    ∃ operations c', ((ingressNode plain).visit .cleanup o ctx).run (plainPrompt.answer now) c =
        (.succeeded operations, c') ∧
      c.Turns (ingressFor o).id (· = none) c' ∧
      (c.get? (ingressFor o).id = none → c' = c) := by
  obtain ⟨operations, c', hrun, hturns⟩ := object_delete_run htame now "Ingress"
    ingressTemplate "ingress" o ctx (ingressFor o) rfl hfree
  exact ⟨operations, c', Task.run_bind _ _ hrun, hturns⟩

omit htame in
/-- The ingress of an application that is not exposed is marked, and nothing is called. -/
theorem ingress_visit_closed (hunexposed : isExposed o = false) (c : Cluster) :
    ((ingressNode plain).visit .reconcile o ctx).run (plainPrompt.answer now) c =
      (.deleted {}, c) := by
  refine Node.gate_run_closed _ _ _ _ ?_
  change (Except.ok (isExposed o), c) = _
  rw [hunexposed]

end Visits
end Reconciliation.WebApp
