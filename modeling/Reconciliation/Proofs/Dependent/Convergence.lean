import Reconciliation.Proofs.Bulk.Steps
import Reconciliation.Proofs.Cluster.Continuity
import Reconciliation.Proofs.Cluster.Tame
import Reconciliation.Proofs.Dependent.Clearance
import Reconciliation.Proofs.Task.Prompt

/-!
Owned objects brought to their desired state. In a tame cluster that answers at once every write
succeeds, so one pass over a dependent leaves what its template asks for, and a pass that finds
it so changes nothing.
-/
namespace Reconciliation

/-- A cluster that answers at once. -/
def Client.plainPrompt : Environment plainInterface Cluster := plainEnvironment fun _ _ _ => 0

theorem Client.prompt_plainPrompt : plainPrompt.Prompt := fun _ _ _ => rfl

namespace Owned

open Client

/-- An object of that owner is found that agrees with the wanted one. -/
def Meets (want : ManagedObject) (owner : Option ResourceId)
    (found : Option ManagedObject) : Prop :=
  ∃ o, found = some o ∧ o.owner = owner ∧ agrees o want = true

section Writes
variable {c : Cluster} (htame : c.Tame) (now : Nat)
include htame

theorem create_turns (want : ManagedObject) (hspec : want.spec.Reflexive)
    (habsent : c.get? want.id = none) :
    ∃ c', (create plain want).run (plainPrompt.answer now) c = (.ok (), c') ∧
      c.Turns want.id (Meets want want.owner) c' := by
  have hturns := htame.turns_put .added (c.newborn want) rfl
  have hrun : (plain.create want).run (plainPrompt.answer now) c =
    (.ok (c.newborn want), c.put .added (c.newborn want)) := c.create_of_absent want habsent
  refine ⟨_, Action.run_andThen _ _ hrun, hturns.tame, ?_, hturns.elsewhere⟩
  exact ⟨c.newborn want, hturns.there, rfl, hspec⟩

theorem update_turns (actual want : ManagedObject) (hspec : want.spec.Reflexive)
    (hstored : c.get? actual.id = some actual) :
    ∃ c', (update plain actual want).run (plainPrompt.answer now) c = (.ok (), c') ∧
      c.Turns actual.id (Meets want actual.owner) c' := by
  have hkept := htame.unreleased actual.id actual hstored
  have hturns := htame.turns_put .updated
    (c.renew ((ObjectPatch.setSpec want.spec none).applyTo actual)) hkept
  have hrun := c.patch_of_stored actual hstored (htame.peaceful actual.id)
    (.setSpec want.spec none) hkept
  refine ⟨_, Action.run_andThen _ _ hrun, hturns.tame, ?_, hturns.elsewhere⟩
  exact ⟨_, hturns.there, rfl, hspec⟩

theorem delete_turns (actual : ManagedObject) (hstored : c.get? actual.id = some actual)
    (hfree : actual.finalizers.isEmpty = true) :
    ∃ c', (delete plain actual).run (plainPrompt.answer now) c = (.ok (), c') ∧
      c.Turns actual.id (· = none) c' := by
  have hrun : (plain.delete actual.id).run (plainPrompt.answer now) c = (.ok (), c.remove actual) :=
    c.delete_of_free actual hstored hfree (.ofMillis now)
  exact ⟨_, Action.run_bind _ _ hrun, htame.turns_remove actual⟩

end Writes

section Single
variable {c : Cluster} (htame : c.Tame) (now : Nat) (kind : String) (template : Template)
  (name : String) (primary : ManagedObject) (ctx : Context) (want : ManagedObject)
  (hrender : render kind template primary = .ok want)
include hrender

theorem secondary_run (c : Cluster) :
    (secondary plain kind template primary).run (plainPrompt.answer now) c =
      (.ok (c.get? want.id), c) := by
  unfold secondary
  rw [hrender]
  rfl

include htame

/-- What a reconcile of the object leaves, and what it leaves alone. -/
theorem object_reconcile_run (hspec : want.spec.Reflexive) :
    ∃ operations c', ((object plain .mutating kind template).reconcile name primary ctx).run
        (plainPrompt.answer now) c = (.ok operations, c') ∧
      c.Turns want.id (fun found => ∃ owner, Meets want owner found) c' ∧
      ((∃ owner, Meets want owner (c.get? want.id)) → c' = c) := by
  have hdesired : ((objectWrites plain kind template).desired primary ctx).run
      (plainPrompt.answer now) c = (.ok want, c) := congrArg (·, c) hrender
  unfold object Adapter.reconcile Adapter.reconcileSingleton
  rw [Task.run_ofAction, Action.run_andThen _ _ hdesired,
    Action.run_andThen _ _ (secondary_run now kind template primary want hrender c)]
  cases hfound : c.get? want.id with
  | none =>
    obtain ⟨c', hrun, hturns⟩ := create_turns htame now want hspec hfound
    refine ⟨_, c', Action.run_andThen _ _ hrun,
      ⟨hturns.tame, ⟨_, hturns.there⟩, hturns.elsewhere⟩, ?_⟩
    rintro ⟨owner, o, ho, _⟩
    cases ho
  | some actual =>
    have hid := htame.keyed _ _ hfound
    dsimp only
    cases hagrees : (objectWrites plain kind template).agrees actual want with
    | true =>
      rw [if_pos rfl]
      exact ⟨_, c, rfl, ⟨htame, ⟨_, actual, hfound, rfl, hagrees⟩, fun _ _ => rfl⟩, fun _ => rfl⟩
    | false =>
      rw [← hid] at hfound
      obtain ⟨c', hrun, hturns⟩ := update_turns htame now actual want hspec hfound
      rw [if_neg Bool.false_ne_true, ← hid]
      refine ⟨_, c', Action.run_andThen _ _ hrun,
        ⟨hturns.tame, ⟨_, hturns.there⟩, hturns.elsewhere⟩, ?_⟩
      rintro ⟨owner, o, ho, _, hmeets⟩
      cases ho
      cases hagrees.symm.trans hmeets

/-- What a deletion of the object leaves. -/
theorem object_delete_run
    (hfree : ∀ o, c.get? want.id = some o → o.finalizers.isEmpty = true) :
    ∃ operations c', ((object plain .mutating kind template).delete name primary ctx).run
        (plainPrompt.answer now) c = (.ok operations, c') ∧
      c.Turns want.id (· = none) c' ∧ (c.get? want.id = none → c' = c) := by
  unfold object Adapter.delete Adapter.deleteSingleton
  rw [Task.run_ofAction,
    Action.run_andThen _ _ (secondary_run now kind template primary want hrender c)]
  cases hfound : c.get? want.id with
  | none => exact ⟨_, c, rfl, ⟨htame, hfound, fun _ _ => rfl⟩, fun _ => rfl⟩
  | some actual =>
    have hid := htame.keyed _ _ hfound
    have hempty := hfree actual hfound
    rw [← hid] at hfound
    obtain ⟨c', hrun, hturns⟩ := delete_turns htame now actual hfound hempty
    rw [← hid]
    exact ⟨_, c', Action.run_andThen _ _ hrun, hturns, nofun⟩

end Single
/-- A group of turns of different identities brings each of them where it is wanted. -/
theorem runGroup_turns {ι : Type} (now : Nat)
    (work : ι → Action plainInterface (Except Error Unit)) (id : ι → ResourceId)
    (wanted : ι → Option ManagedObject → Prop) (jobs : List ι) (hnodup : (jobs.map id).Nodup)
    {c : Cluster} (htame : c.Tame)
    (hturn : ∀ j ∈ jobs, ∀ s : Cluster, s.Tame → s.get? (id j) = c.get? (id j) →
      ∃ s', (work j).run (plainPrompt.answer now) s = (.ok (), s') ∧
        s.Turns (id j) (wanted j) s') :
    ∃ c', Task.runGroup (plainPrompt.answer now) (jobs.map work) c =
        (jobs.map fun _ => .ok (), c') ∧
      c'.Tame ∧ (∀ j ∈ jobs, wanted j (c'.get? (id j))) ∧
      ∀ id', id' ∉ jobs.map id → c'.get? id' = c.get? id' := by
  induction jobs generalizing c with
  | nil => exact ⟨c, rfl, htame, nofun, fun _ _ => rfl⟩
  | cons j rest ih =>
    rw [List.map_cons, List.nodup_cons] at hnodup
    obtain ⟨hnot, hrest⟩ := hnodup
    obtain ⟨c₁, hrun₁, hturns⟩ := hturn j List.mem_cons_self c htame rfl
    have hother : ∀ k ∈ rest, c₁.get? (id k) = c.get? (id k) := fun k hk =>
      hturns.elsewhere _ fun heq => hnot (heq ▸ List.mem_map_of_mem hk)
    obtain ⟨c₂, hrun₂, htame₂, hwanted, helsewhere⟩ := ih hrest hturns.tame
      fun k hk s hs hsame => hturn k (List.mem_cons_of_mem j hk) s hs (hsame.trans (hother k hk))
    refine ⟨c₂, ?_, htame₂, fun k hk => ?_, fun id' hid' => ?_⟩
    · rw [List.map_cons, List.map_cons, Task.runGroup, hrun₁]
      dsimp only
      rw [hrun₂]
    · rcases List.mem_cons.mp hk with rfl | hk
      · rw [helsewhere _ hnot]
        exact hturns.there
      · exact hwanted k hk
    · rw [List.map_cons, List.mem_cons, not_or] at hid'
      rw [helsewhere id' hid'.2, hturns.elsewhere id' hid'.1]

/-- What is found where a member is wanted, or where none is. -/
def Fits (owner : ResourceId) : Option ManagedObject → Option ManagedObject → Prop
  | some want, found => Meets want (some owner) found
  | none, found => ∀ o, found = some o → o.owner ≠ some owner

/-- The primary owns the wanted objects of a kind and no others. -/
structure Keeps (primary : ManagedObject) (kind : String)
    (desired : SortedMap String ManagedObject) (c : Cluster) : Prop where
  near : ∀ o ∈ c.ownedBy primary.id kind, o.id.ns = primary.id.ns
  fits : ∀ name, Fits primary.id (desired.get? name) (c.get? (primary.id.sibling kind name))

/-- Nothing stands in the way of the wanted objects. Others have none of their identities, and
what is not wanted can be deleted. -/
structure Attainable (primary : ManagedObject) (kind : String)
    (desired : SortedMap String ManagedObject) (c : Cluster) : Prop where
  near : ∀ o ∈ c.ownedBy primary.id kind, o.id.ns = primary.id.ns
  wanted : ∀ name want, desired.get? name = some want →
    want.id = primary.id.sibling kind name ∧ want.owner = some primary.id ∧ want.spec.Reflexive
  free : ∀ name want, desired.get? name = some want → ∀ o,
    c.get? (primary.id.sibling kind name) = some o → o.owner = some primary.id
  unheld : ∀ o ∈ c.ownedBy primary.id kind, desired.get? o.id.name = none →
    o.finalizers.isEmpty = true

section Elsewhere
variable {c c' : Cluster} (hc : c.Keyed) (hc' : c'.Keyed) {kind : String}
  (hsame : ∀ id, id.kind = kind → c'.get? id = c.get? id)
include hc hc' hsame

theorem mem_ownedBy_congr (owner : ResourceId) (o : ManagedObject) :
    o ∈ c'.ownedBy owner kind ↔ o ∈ c.ownedBy owner kind := by
  rw [hc'.mem_ownedBy_iff, hc.mem_ownedBy_iff]
  constructor
  · exact fun ⟨hstored, hkind, howned⟩ => ⟨hsame o.id hkind ▸ hstored, hkind, howned⟩
  · exact fun ⟨hstored, hkind, howned⟩ => ⟨(hsame o.id hkind).trans hstored, hkind, howned⟩

variable {primary : ManagedObject} {desired : SortedMap String ManagedObject}

theorem Keeps.elsewhere (h : Keeps primary kind desired c) : Keeps primary kind desired c' := by
  refine ⟨fun o ho => ?_, fun name => ?_⟩
  · exact h.near o ((mem_ownedBy_congr hc hc' hsame primary.id o).mp ho)
  · rw [hsame (primary.id.sibling kind name) rfl]
    exact h.fits name

theorem Attainable.elsewhere (h : Attainable primary kind desired c) :
    Attainable primary kind desired c' := by
  have hmem := mem_ownedBy_congr hc hc' hsame primary.id
  refine ⟨fun o ho => h.near o ((hmem o).mp ho), h.wanted, fun name want hwant o ho => ?_,
    fun o ho => h.unheld o ((hmem o).mp ho)⟩
  exact h.free name want hwant o ((hsame (primary.id.sibling kind name) rfl).symm.trans ho)

end Elsewhere

/-- What is kept stays attainable. -/
theorem Keeps.attainable {primary : ManagedObject} {kind : String}
    {desired : SortedMap String ManagedObject} {c : Cluster} (hc : c.Keyed)
    (h : Keeps primary kind desired c)
    (hwanted : ∀ name want, desired.get? name = some want →
      want.id = primary.id.sibling kind name ∧ want.owner = some primary.id ∧
        want.spec.Reflexive) :
    Attainable primary kind desired c := by
  refine ⟨h.near, hwanted, fun name want hwant o ho => ?_, fun o ho hnone => ?_⟩
  · have hfits := h.fits name
    rw [hwant] at hfits
    obtain ⟨o', ho', howned, _⟩ := hfits
    rwa [← Option.some.inj (ho.symm.trans ho')] at howned
  · obtain ⟨hstored, hkind, howned⟩ := (hc.mem_ownedBy_iff _ _ _).mp ho
    have hid : o.id = primary.id.sibling kind o.id.name := by
      rw [← hkind, ResourceId.sibling, ← h.near o ho]
    have hfits := h.fits o.id.name
    rw [hnone, ← hid] at hfits
    exact absurd howned (hfits o hstored)

section Several
variable {c : Cluster} (htame : c.Tame) (kind : String) (primary : ManagedObject)

section Named
variable (hnear : ∀ o ∈ c.ownedBy primary.id kind, o.id.ns = primary.id.ns)
include htame hnear

/-- In one namespace the objects of a kind are told apart by their names. -/
theorem get?_byName (name : String) (o : ManagedObject) :
    (byName (c.ownedBy primary.id kind)).get? name = some o ↔
      c.get? (primary.id.sibling kind name) = some o ∧ o.owner = some primary.id := by
  have hmem : ∀ o' : ManagedObject, (name, o') ∈ (byName (c.ownedBy primary.id kind)).entries →
      c.get? (primary.id.sibling kind name) = some o' ∧ o'.owner = some primary.id := by
    intro o' hentry
    obtain ⟨o₁, ho₁, heq⟩ := List.mem_map.mp (mem_of_mem_ofList _ _ hentry)
    obtain ⟨hname, rfl⟩ := Prod.mk.inj heq
    obtain ⟨hstored, hkind, howned⟩ := (htame.keyed.mem_ownedBy_iff _ _ _).mp ho₁
    have hid : o₁.id = primary.id.sibling kind name := by
      rw [← hname, ← hkind, ResourceId.sibling, ← hnear o₁ ho₁]
    exact ⟨hid ▸ hstored, howned⟩
  rw [SortedMap.get?_eq_some_iff]
  refine ⟨hmem o, fun ⟨hstored, howned⟩ => ?_⟩
  have hid := htame.keyed _ _ hstored
  have howner : o ∈ c.ownedBy primary.id kind := by
    refine (htame.keyed.mem_ownedBy_iff _ _ _).mpr ⟨hid ▸ hstored, ?_, howned⟩
    rw [hid]
    rfl
  have hlisted : (name, o) ∈ (c.ownedBy primary.id kind).map fun o => (o.id.name, o) := by
    refine List.mem_map.mpr ⟨o, howner, ?_⟩
    rw [hid]
    rfl
  obtain ⟨o', hentry⟩ := exists_mem_ofList _ _ hlisted
  obtain ⟨hstored', _⟩ := hmem o' hentry
  rwa [← Option.some.inj (hstored'.symm.trans hstored)]

variable (desired : SortedMap String ManagedObject)

/-- A member that is worked on is not as it is wanted. -/
theorem not_fits_of_bridges {step : BulkStep ManagedObject}
    (h : BulkPlan.Bridges agrees (byName (c.ownedBy primary.id kind)) desired step) :
    ¬ Fits primary.id (desired.get? step.key)
      (c.get? (primary.id.sibling kind step.key)) := by
  intro hfits
  cases h with
  | delete key a hactual hdesired =>
    obtain ⟨hstored, howned⟩ := (get?_byName htame kind primary hnear key a).mp hactual
    rw [BulkStep.key, hdesired] at hfits
    exact hfits a hstored howned
  | create key b hactual hdesired =>
    rw [BulkStep.key, hdesired] at hfits
    obtain ⟨o, hstored, howned, _⟩ := hfits
    have hfound := (get?_byName htame kind primary hnear key o).mpr ⟨hstored, howned⟩
    cases hactual.symm.trans hfound
  | update key a b hactual hdesired hdiffer =>
    rw [BulkStep.key, hdesired] at hfits
    obtain ⟨o, hstored, howned, hagrees⟩ := hfits
    have hfound := (get?_byName htame kind primary hnear key o).mpr ⟨hstored, howned⟩
    obtain rfl := Option.some.inj (hactual.symm.trans hfound)
    cases hdiffer.symm.trans hagrees

/-- A member that is not worked on is as it is wanted. -/
theorem fits_of_no_bridge (name : String)
    (h : ∀ step, BulkPlan.Bridges agrees (byName (c.ownedBy primary.id kind)) desired step →
      step.key ≠ name) :
    Fits primary.id (desired.get? name) (c.get? (primary.id.sibling kind name)) := by
  have hname := get?_byName htame kind primary hnear name
  cases hdesired : desired.get? name with
  | none =>
    intro o hstored howned
    exact h _ (.delete name o ((hname o).mpr ⟨hstored, howned⟩) hdesired) rfl
  | some want =>
    cases hactual : (byName (c.ownedBy primary.id kind)).get? name with
    | none => exact absurd rfl (h _ (.create name want hactual hdesired))
    | some o =>
      obtain ⟨hstored, howned⟩ := (hname o).mp hactual
      refine ⟨o, hstored, howned, ?_⟩
      by_contra hdiffer
      exact h _ (.update name o want hactual hdesired (Bool.eq_false_iff.mpr hdiffer)) rfl

end Named

section Steps
variable {desired : SortedMap String ManagedObject} (h : Attainable primary kind desired c)
  (template : SetTemplate) (ctx : Context) (now : Nat)
include htame h

/-- Every step of the plan succeeds and brings its member where it is wanted. -/
theorem step_turns (step : BulkStep ManagedObject)
    (hstep : BulkPlan.Bridges agrees (byName (c.ownedBy primary.id kind)) desired step)
    (s : Cluster) (hs : s.Tame)
    (hsame : s.get? (primary.id.sibling kind step.key) =
      c.get? (primary.id.sibling kind step.key)) :
    ∃ s', (step.perform ((setWrites plain kind template).on primary ctx)).run
        (plainPrompt.answer now) s = (.ok (), s') ∧
      s.Turns (primary.id.sibling kind step.key)
        (Fits primary.id (desired.get? step.key)) s' := by
  have hname := get?_byName htame kind primary h.near step.key
  cases hstep with
  | delete key a hactual hdesired =>
    obtain ⟨hstored, howner⟩ := (hname a).mp hactual
    have hid : a.id = primary.id.sibling kind key := htame.keyed _ _ hstored
    have hheld := h.unheld a ((htame.keyed.mem_ownedBy_iff _ _ _).mpr
      ⟨hid ▸ hstored, congrArg ResourceId.kind hid, howner⟩)
      ((congrArg (desired.get? ·.name) hid).trans hdesired)
    obtain ⟨s', hrun, hturns⟩ := delete_turns hs now a (hid ▸ hsame.trans hstored) hheld
    refine ⟨s', hrun, ?_⟩
    rw [BulkStep.key, hdesired, ← hid]
    refine ⟨hturns.tame, fun o ho => ?_, hturns.elsewhere⟩
    cases hturns.there.symm.trans ho
  | create key b hactual hdesired =>
    obtain ⟨hid, howner, hspec⟩ := h.wanted key b hdesired
    have habsent : s.get? b.id = none := by
      rw [hid]
      refine hsame.trans ?_
      by_contra hne
      obtain ⟨o, hstored⟩ := Option.ne_none_iff_exists'.mp hne
      have hfound := (hname o).mpr ⟨hstored, h.free key b hdesired o hstored⟩
      cases hactual.symm.trans hfound
    obtain ⟨s', hrun, hturns⟩ := create_turns hs now b hspec habsent
    have hmeets := hturns.there
    rw [howner] at hmeets
    refine ⟨s', hrun, ?_⟩
    rw [BulkStep.key, hdesired, ← hid]
    exact ⟨hturns.tame, hmeets, hturns.elsewhere⟩
  | update key a b hactual hdesired hdiffer =>
    obtain ⟨_, _, hspec⟩ := h.wanted key b hdesired
    obtain ⟨hstored, howner⟩ := (hname a).mp hactual
    have hid : a.id = primary.id.sibling kind key := htame.keyed _ _ hstored
    obtain ⟨s', hrun, hturns⟩ := update_turns hs now a b hspec (hid ▸ hsame.trans hstored)
    have hmeets := hturns.there
    rw [howner] at hmeets
    refine ⟨s', hrun, ?_⟩
    rw [BulkStep.key, hdesired, ← hid]
    exact ⟨hturns.tame, hmeets, hturns.elsewhere⟩

/-- The plan for the members as they are. -/
abbrev planFor (primary : ManagedObject) (kind : String)
    (desired : SortedMap String ManagedObject) (c : Cluster) : BulkPlan ManagedObject :=
  .between agrees (byName (c.ownedBy primary.id kind)) desired

/-- What the steps of the plan leave, side by side, and what they leave alone. -/
theorem steps_turn :
    ∃ c', Task.runGroup (plainPrompt.answer now)
        ((planFor primary kind desired c).steps.map
          (·.perform ((setWrites plain kind template).on primary ctx))) c =
        ((planFor primary kind desired c).steps.map fun _ => .ok (), c') ∧
      c'.Tame ∧
      (∀ step ∈ (planFor primary kind desired c).steps,
        Fits primary.id (desired.get? step.key)
          (c'.get? (primary.id.sibling kind step.key))) ∧
      ∀ id, (∀ step ∈ (planFor primary kind desired c).steps,
        primary.id.sibling kind step.key ≠ id) → c'.get? id = c.get? id := by
  have hnodup : ((planFor primary kind desired c).steps.map fun step =>
      primary.id.sibling kind step.key).Nodup := by
    have hkeys := BulkPlan.nodup_keys_between agrees (byName (c.ownedBy primary.id kind)) desired
    have hids := hkeys.map (f := primary.id.sibling kind) fun a b heq =>
      congrArg ResourceId.name heq
    rwa [List.map_map] at hids
  obtain ⟨c', hgroup, htame', hwanted, helsewhere⟩ := runGroup_turns now
    (·.perform ((setWrites plain kind template).on primary ctx)) _
    (fun step => Fits primary.id (desired.get? step.key)) _ hnodup htame
    fun step hstep s hs hsame => by
      rw [BulkPlan.mem_steps_between_iff] at hstep
      exact step_turns htame kind primary h template ctx now step hstep s hs hsame
  refine ⟨c', hgroup, htame', hwanted, fun id hid => helsewhere id fun hmem => ?_⟩
  obtain ⟨step, hstep, heq⟩ := List.mem_map.mp hmem
  exact hid step hstep heq

/-- Members that are worked on come to be as they are wanted, and the others are so already. -/
theorem keeps_of_steps {c' : Cluster} (htame' : c'.Tame)
    (hwanted : ∀ step ∈ (planFor primary kind desired c).steps,
      Fits primary.id (desired.get? step.key) (c'.get? (primary.id.sibling kind step.key)))
    (helsewhere : ∀ id, (∀ step ∈ (planFor primary kind desired c).steps,
      primary.id.sibling kind step.key ≠ id) → c'.get? id = c.get? id) :
    Keeps primary kind desired c' := by
  refine ⟨fun o ho => ?_, fun name => ?_⟩
  · obtain ⟨hstored, hkind, howned⟩ := (htame'.keyed.mem_ownedBy_iff _ _ _).mp ho
    by_cases hstep : ∃ step ∈ (planFor primary kind desired c).steps,
        primary.id.sibling kind step.key = o.id
    · obtain ⟨step, _, heq⟩ := hstep
      rw [← heq]
      rfl
    · rw [helsewhere o.id fun step hmem heq => hstep ⟨step, hmem, heq⟩] at hstored
      exact h.near o ((htame.keyed.mem_ownedBy_iff _ _ _).mpr ⟨hstored, hkind, howned⟩)
  · by_cases hstep : ∃ step ∈ (planFor primary kind desired c).steps, step.key = name
    · obtain ⟨step, hmem, rfl⟩ := hstep
      exact hwanted step hmem
    · rw [helsewhere (primary.id.sibling kind name) fun step hmem heq =>
        hstep ⟨step, hmem, congrArg ResourceId.name heq⟩]
      refine fits_of_no_bridge htame kind primary h.near desired name fun step hbridge heq => ?_
      exact hstep ⟨step, (BulkPlan.mem_steps_between_iff _ _ _ step).mpr hbridge, heq⟩

omit h in
/-- Where the wanted objects are kept the plan has no steps. -/
theorem steps_eq_nil_of_keeps (hkeeps : Keeps primary kind desired c) :
    (planFor primary kind desired c).steps = [] := by
  refine List.eq_nil_iff_forall_not_mem.mpr fun step hstep => ?_
  rw [BulkPlan.mem_steps_between_iff] at hstep
  exact not_fits_of_bridges htame kind primary hkeeps.near desired hstep (hkeeps.fits step.key)

/-- What a reconcile of the set leaves, and what it leaves alone. -/
theorem objects_reconcile_run (name : String)
    (hrender : renderSet kind template primary = .ok desired) :
    ∃ operations c', ((objects plain .mutating kind template).reconcile name primary ctx).run
        (plainPrompt.answer now) c = (.ok operations, c') ∧
      c'.Tame ∧ Keeps primary kind desired c' ∧
      (∀ id, id.kind ≠ kind → c'.get? id = c.get? id) ∧
      (Keeps primary kind desired c → c' = c) := by
  have hdesired : (Task.ofAction (ε := Error)
      ((setWrites plain kind template).desired primary ctx)).run (plainPrompt.answer now) c =
        (.ok desired, c) := by
    rw [Task.run_ofAction]
    exact congrArg (·, c) hrender
  have hactual : (Task.ofAction (ε := Error) (secondaries plain kind primary)).run
      (plainPrompt.answer now) c = (.ok (byName (c.ownedBy primary.id kind)), c) := by
    rw [Task.run_ofAction]
    rfl
  obtain ⟨c', hgroup, htame', hwanted, helsewhere⟩ :=
    steps_turn htame kind primary h template ctx now
  refine ⟨(planFor primary kind desired c).operations, c', ?_, htame',
    keeps_of_steps htame kind primary h htame' hwanted helsewhere, fun id hid => ?_,
    fun hkeeps => ?_⟩
  · unfold objects Adapter.reconcile
    rw [Task.run_andThen _ _ hdesired, Task.run_andThen _ _ hactual]
    refine BulkPlan.run_apply name _ _ _ hgroup fun r hr => ?_
    obtain ⟨_, _, rfl⟩ := List.mem_map.mp hr
    rfl
  · exact helsewhere id fun step _ heq => hid (heq ▸ rfl)
  · rw [steps_eq_nil_of_keeps htame kind primary hkeeps] at hgroup
    exact (congrArg Prod.snd hgroup).symm

end Steps
end Several
end Owned
end Reconciliation
