import Reconciliation.Proofs.WebApp.Dependents
import Reconciliation.Proofs.Workflow.Declaration
import Reconciliation.Proofs.Workflow.Passage

/-!
A reconcile pass over the dependents of a web application in a cluster that answers at once. It
takes the config map, the pods and the ingress in turn. Where nothing stands in its way it
leaves all of them as the application asks for, and then it has nothing to change.
-/
namespace Reconciliation.WebApp

open Client Owned

/-- The workflow of a web application with room for so many nodes at a time. -/
def workflow (room : Nat) : Workflow plainInterface :=
  ((workflowPlan plain).withMaxConcurrency room).ordered [0, 1, 2]

theorem build_workflowPlan (room : Nat) :
    ((workflowPlan plain).withMaxConcurrency room).build = .ok (workflow room) := by
  rfl

section Walks
variable (room now : Nat) (visit : Nat → Task plainInterface Error NodeOutcome)
  {c c₁ c₂ c₃ : Cluster} {config pods : Operations}

/-- With the runs of the three visits known, the walk is known: it takes the nodes in their
order. -/
theorem walk_settle {ingress : NodeOutcome}
    (hconfig : (visit 0).run (plainPrompt.answer now) c = (.succeeded config, c₁))
    (hpods : (visit 1).run (plainPrompt.answer now) c₁ = (.succeeded pods, c₂))
    (hingress : (visit 2).run (plainPrompt.answer now) c₂ = (ingress, c₃)) :
    ((workflow room).walk .reconcile).settle visit plainPrompt now
        ((workflow room).walk .reconcile).begin c =
      (⟨[], [], [(0, .succeeded config), (1, .succeeded pods), (2, ingress)]⟩, c₃) := by
  let walk := (workflow room).walk .reconcile
  calc walk.settle visit plainPrompt now walk.begin c
      = walk.startAll visit plainPrompt now 3 ⟨[0], [], []⟩ c := rfl
    _ = walk.startAll visit plainPrompt now 2 ⟨[1], [], [(0, .succeeded config)]⟩ c₁ :=
        walk.startAll_prompt visit prompt_plainPrompt now 2 0 [] [] hconfig
    _ = walk.startAll visit plainPrompt now 1
          ⟨[2], [], [(0, .succeeded config), (1, .succeeded pods)]⟩ c₂ :=
        walk.startAll_prompt visit prompt_plainPrompt now 1 1 [] _ hpods
    _ = (⟨[], [], [(0, .succeeded config), (1, .succeeded pods), (2, ingress)]⟩, c₃) :=
        walk.startAll_prompt visit prompt_plainPrompt now 0 2 [] _ hingress

theorem removal_settle {ingress : NodeOutcome}
    (hingress : (visit 2).run (plainPrompt.answer now) c = (ingress, c₁)) :
    ((workflow room).removal [2]).settle visit plainPrompt now
        ((workflow room).removal [2]).begin c = (⟨[], [], [(2, ingress)]⟩, c₁) := by
  let walk := (workflow room).removal [2]
  calc walk.settle visit plainPrompt now walk.begin c
      = walk.startAll visit plainPrompt now 3 ⟨[2], [], []⟩ c := rfl
    _ = walk.startAll visit plainPrompt now 2 ⟨[], [], [(2, ingress)]⟩ c₁ :=
        walk.startAll_prompt visit prompt_plainPrompt now 2 2 [] [] hingress
    _ = (⟨[], [], [(2, ingress)]⟩, c₁) := walk.startAll_idle visit plainPrompt now 2 _ c₁

end Walks
/-- The result of a pass in which the nodes have come to these outcomes. -/
def summary (config pods : Operations) (ingress : NodeOutcome) : PassResult where
  mode := .reconcile
  declared := ["config", "pods", "ingress"]
  recorded := [("config", .succeeded config), ("pods", .succeeded pods), ("ingress", ingress)]

section Settle
variable (room now : Nat) (o : ManagedObject) (ctx : Context) {c c₁ c₂ c₃ : Cluster}
  {config pods ingress : Operations}
  (hconfig : ((configNode plain).visit .reconcile o ctx).run (plainPrompt.answer now) c =
    (.succeeded config, c₁))
  (hpods : ((podsNode plain).visit .reconcile o ctx).run (plainPrompt.answer now) c₁ =
    (.succeeded pods, c₂))
include hconfig hpods

/-- An application that is exposed has no marked node, so the pass is over with its walk. -/
theorem pass_settle_exposed
    (hingress : ((ingressNode plain).visit .reconcile o ctx).run (plainPrompt.answer now) c₂ =
      (.succeeded ingress, c₃)) :
    ((workflow room).pass .reconcile o ctx).settle plainPrompt now c =
      (.over (summary config pods (.succeeded ingress)), c₃) := by
  have hwalk : Pass.walked (workflow room) plainPrompt o ctx now
      ((workflow room).walk .reconcile).begin c .reconcile =
        (⟨[], [], [(0, .succeeded config), (1, .succeeded pods), (2, .succeeded ingress)]⟩, c₃) :=
    walk_settle room now _ hconfig hpods hingress
  have hlast := Pass.settle_walking_last (workflow room) plainPrompt o ctx now
    ((workflow room).walk .reconcile).begin c .reconcile
  rw [hwalk] at hlast
  exact hlast rfl (Or.inr rfl)

/-- The ingress of an application that is not exposed is taken away in a walk of its own. -/
theorem pass_settle_unexposed
    (hclosed : ((ingressNode plain).visit .reconcile o ctx).run (plainPrompt.answer now) c₂ =
      (.deleted {}, c₂))
    (hremoval : ((ingressNode plain).visit .cleanup o ctx).run (plainPrompt.answer now) c₂ =
      (.succeeded ingress, c₃)) :
    ((workflow room).pass .reconcile o ctx).settle plainPrompt now c =
      (.over (summary config pods (.deleted ingress)), c₃) := by
  have hwalk : Pass.walked (workflow room) plainPrompt o ctx now
      ((workflow room).walk .reconcile).begin c .reconcile =
        (⟨[], [], [(0, .succeeded config), (1, .succeeded pods), (2, .deleted {})]⟩, c₂) :=
    walk_settle room now _ hconfig hpods hclosed
  have hremoved : Pass.removed (workflow room) plainPrompt o ctx now
      ((workflow room).removal [2]).begin c₂
        [(0, .succeeded config), (1, .succeeded pods), (2, .deleted {})] =
          (⟨[], [], [(2, .succeeded ingress)]⟩, c₃) :=
    removal_settle room now _ hremoval
  have hmarked := Pass.settle_walking_marked (workflow room) plainPrompt o ctx now
    ((workflow room).walk .reconcile).begin c
  rw [hwalk] at hmarked
  have hover := Pass.settle_removing_over (workflow room) plainPrompt o ctx now
    ((workflow room).removal [2]).begin c₂
    [(0, .succeeded config), (1, .succeeded pods), (2, .deleted {})]
  rw [hremoved] at hover
  exact (hmarked rfl nofun).trans (hover rfl)

end Settle
theorem summary_ready (config pods : Operations) {ingress : NodeOutcome}
    (h : (∃ operations, ingress = .succeeded operations) ∨
      ∃ operations, ingress = .deleted operations) :
    (summary config pods ingress).toExcept = .ok (summary config pods ingress) ∧
      (summary config pods ingress).allReady = true ∧
      (summary config pods ingress).needsRecheck = false := by
  obtain ⟨operations, rfl⟩ | ⟨operations, rfl⟩ := h
  · exact ⟨rfl, rfl, rfl⟩
  · exact ⟨rfl, rfl, rfl⟩

/-- What is found of the ingress: it is there while the application is exposed, and only then. -/
structure IngressFits (o : ManagedObject) (found : Option ManagedObject) : Prop where
  exposed : isExposed o = true → ∃ owner, Meets (ingressFor o) owner found
  unexposed : isExposed o = false → found = none

/-- The ingress is brought about or taken away. -/
theorem ingress_settle (room now : Nat) (o : ManagedObject) (ctx : Context) {c c₁ c₂ : Cluster}
    {config pods : Operations} (htame : c₂.Tame)
    (hfree : isExposed o = false → ∀ found, c₂.get? (ingressFor o).id = some found →
      found.finalizers.isEmpty = true)
    (hconfig : ((configNode plain).visit .reconcile o ctx).run (plainPrompt.answer now) c =
      (.succeeded config, c₁))
    (hpods : ((podsNode plain).visit .reconcile o ctx).run (plainPrompt.answer now) c₁ =
      (.succeeded pods, c₂)) :
    ∃ ingress c₃, ((workflow room).pass .reconcile o ctx).settle plainPrompt now c =
        (.over (summary config pods ingress), c₃) ∧
      ((∃ operations, ingress = .succeeded operations) ∨
        ∃ operations, ingress = .deleted operations) ∧
      c₂.Turns (ingressFor o).id (IngressFits o) c₃ ∧
      (IngressFits o (c₂.get? (ingressFor o).id) → c₃ = c₂) := by
  cases hexposed : isExposed o with
  | true =>
    obtain ⟨operations, c₃, hrun, hturns, hquiet⟩ :=
      ingress_visit_run htame now o ctx hexposed
    refine ⟨.succeeded operations, c₃, pass_settle_exposed room now o ctx hconfig hpods hrun,
      Or.inl ⟨operations, rfl⟩, ⟨hturns.tame, ⟨fun _ => hturns.there, fun h => ?_⟩,
        hturns.elsewhere⟩, fun hfits => hquiet (hfits.exposed hexposed)⟩
    cases hexposed.symm.trans h
  | false =>
    obtain ⟨operations, c₃, hrun, hturns, hquiet⟩ :=
      ingress_removal_run htame now o ctx (hfree hexposed)
    have hclosed := ingress_visit_closed now o ctx hexposed c₂
    refine ⟨.deleted operations, c₃,
      pass_settle_unexposed room now o ctx hconfig hpods hclosed hrun,
      Or.inr ⟨operations, rfl⟩, ⟨hturns.tame, ⟨fun h => ?_, fun _ => hturns.there⟩,
        hturns.elsewhere⟩, fun hfits => hquiet (hfits.unexposed hexposed)⟩
    cases hexposed.symm.trans h

/-- Nothing stands in the way of the dependents. -/
structure Workable (o : ManagedObject) (n : Nat) (c : Cluster) : Prop where
  tame : c.Tame
  replicas : replicas o = .ok n
  spec : o.spec.Reflexive
  pods : Attainable o "Pod" (podsFor o n) c
  ingress : isExposed o = false → ∀ found, c.get? (ingressFor o).id = some found →
    found.finalizers.isEmpty = true

/-- The dependents are what an application with so many replicas asks for. -/
structure Fulfilled (o : ManagedObject) (n : Nat) (c : Cluster) : Prop where
  config : ∃ owner, Meets (configFor o) owner (c.get? (configFor o).id)
  pods : Keeps o "Pod" (podsFor o n) c
  ingress : IngressFits o (c.get? (ingressFor o).id)

/-- What a reconcile pass leaves, and what it leaves alone. -/
structure Served (o : ManagedObject) (n : Nat) (c c' : Cluster) : Prop where
  tame : c'.Tame
  fulfilled : Fulfilled o n c'
  elsewhere : ∀ id, id.kind ≠ "ConfigMap" → id.kind ≠ "Pod" → id.kind ≠ "Ingress" →
    c'.get? id = c.get? id
  quiet : Fulfilled o n c → c' = c

/-- The pass is over at once. -/
theorem pass_run (room now : Nat) (o : ManagedObject) (n : Nat) (ctx : Context) {c : Cluster}
    (h : Workable o n c) :
    ∃ r c', ((workflow room).pass .reconcile o ctx).settle plainPrompt now c = (.over r, c') ∧
      r.toExcept = .ok r ∧ r.allReady = true ∧ r.needsRecheck = false ∧ Served o n c c' := by
  obtain ⟨config, c₁, hconfig, hturns₁, hquiet₁⟩ := config_visit_run h.tame now o ctx h.spec
  have hkind₁ : ∀ id : ResourceId, id.kind ≠ "ConfigMap" → c₁.get? id = c.get? id :=
    fun id hid => hturns₁.elsewhere id fun heq => hid (heq ▸ rfl)
  have hpods₁ := h.pods.elsewhere h.tame.keyed hturns₁.tame.keyed fun id hid =>
    hkind₁ id (hid ▸ by decide)
  obtain ⟨pods, c₂, hpods, htame₂, hkeeps, hkind₂, hquiet₂⟩ :=
    pods_visit_run hturns₁.tame now o ctx n h.replicas hpods₁
  have hsame₂ : c₂.get? (ingressFor o).id = c.get? (ingressFor o).id :=
    (hkind₂ _ (by decide : "Ingress" ≠ "Pod")).trans
      (hkind₁ _ (by decide : "Ingress" ≠ "ConfigMap"))
  obtain ⟨ingress, c₃, hsettle, houtcome, hturns₃, hquiet₃⟩ := ingress_settle room now o ctx
    htame₂ (hsame₂ ▸ h.ingress) hconfig hpods
  have hkind₃ : ∀ id : ResourceId, id.kind ≠ "Ingress" → c₃.get? id = c₂.get? id :=
    fun id hid => hturns₃.elsewhere id fun heq => hid (heq ▸ rfl)
  obtain ⟨hok, hready, hsettled⟩ := summary_ready config pods houtcome
  refine ⟨summary config pods ingress, c₃, hsettle, hok, hready, hsettled, hturns₃.tame,
    ⟨?_, ?_, hturns₃.there⟩, fun id hconfigMap hpod hingress => ?_, fun hfulfilled => ?_⟩
  · rw [hkind₃ _ (by decide : "ConfigMap" ≠ "Ingress"), hkind₂ _ (by decide : "ConfigMap" ≠ "Pod")]
    exact hturns₁.there
  · exact hkeeps.elsewhere htame₂.keyed hturns₃.tame.keyed fun id hid =>
      hkind₃ id (hid ▸ by decide)
  · exact ((hkind₃ id hingress).trans (hkind₂ id hpod)).trans (hkind₁ id hconfigMap)
  · obtain rfl := hquiet₁ hfulfilled.config
    obtain rfl := hquiet₂ hfulfilled.pods
    exact hquiet₃ hfulfilled.ingress

end Reconciliation.WebApp
