import Reconciliation.Proofs.Cluster.Lifetime
import Reconciliation.Proofs.Task.Achievement

/-!
Clusters that only lose objects. Without new objects, whatever is stored was stored before, for
the same owner, and it does not come back from its deletion. So what a deletion has reached is
not undone by anybody who creates nothing.
-/
namespace Reconciliation

namespace Cluster

theorem Becomes.owner_eq {c : Cluster} {o o' : ManagedObject} {w : ClusterWrite}
    {answer : Except Error (Option ManagedObject)} (h : Becomes c o w answer (some o')) :
    o'.owner = o.owner := by
  cases h <;> rfl

/-- Whatever the second cluster stores was in the first one, nearer to its end at most. -/
structure Dwindles (c c' : Cluster) : Prop where
  keyed : c.Keyed → c'.Keyed
  earlier : c.Keyed → ∀ id o', c'.get? id = some o' → ∃ o, c.get? id = some o ∧
    o'.owner = o.owner ∧ (o.isTerminating = true → o'.isTerminating = true)

theorem dwindles_refl (c : Cluster) : c.Dwindles c :=
  ⟨id, fun _ _ o ho => ⟨o, ho, rfl, id⟩⟩

theorem Dwindles.trans {a b c : Cluster} (hab : a.Dwindles b) (hbc : b.Dwindles c) :
    a.Dwindles c := by
  refine ⟨fun ha => hbc.keyed (hab.keyed ha), fun ha id o ho => ?_⟩
  obtain ⟨o₁, hstored₁, howner₁, hterminating₁⟩ := hbc.earlier (hab.keyed ha) id o ho
  obtain ⟨o₂, hstored₂, howner₂, hterminating₂⟩ := hab.earlier ha id o₁ hstored₁
  exact ⟨o₂, hstored₂, howner₁.trans howner₂, fun h => hterminating₁ (hterminating₂ h)⟩

instance : IsPreorder Cluster Dwindles where
  refl := dwindles_refl
  trans := fun _ _ _ => Dwindles.trans

/-- Only a creation can bring an object that was not there. -/
theorem Effect.dwindles {c c' : Cluster} {w : ClusterWrite}
    {answer : Except Error (Option ManagedObject)} (h : Effect c w answer c')
    (hw : ∀ o, w ≠ .create o) : c.Dwindles c' := by
  refine ⟨h.change.keyed, fun hc id o' ho' => ?_⟩
  cases hstored : c.get? id with
  | none =>
    obtain ⟨new, hcreate, _⟩ := h.appears hstored ho'
    exact absurd hcreate (hw new)
  | some o =>
    obtain rfl : o.id = id := hc id o hstored
    have hbecomes := h.becomes hstored
    rw [ho'] at hbecomes
    refine ⟨o, rfl, hbecomes.owner_eq, fun hterminating => ?_⟩
    rwa [isTerminating_congr (hbecomes.deletionRequestedAt hterminating)]

/-- What is stored under the identity, if anything, is on its way out. -/
def Gone (c : Cluster) (id : ResourceId) : Prop :=
  ∀ o, c.get? id = some o → o.isTerminating = true

theorem Dwindles.gone {c c' : Cluster} (h : c.Dwindles c') (hc : c.Keyed) {id : ResourceId}
    (hgone : c.Gone id) : c'.Gone id := by
  intro o' ho'
  obtain ⟨o, ho, _, hterminating⟩ := h.earlier hc id o' ho'
  exact hterminating (hgone o ho)

/-- After a request for its deletion an object is gone, finalizers or not. -/
theorem gone_delete (c : Cluster) (hc : c.Keyed) (id : ResourceId) (time : Timestamp) :
    (c.delete id time).2.Gone id := by
  intro o ho
  unfold delete at ho
  cases hstored : c.get? id with
  | none =>
    rw [hstored] at ho
    cases hstored.symm.trans ho
  | some old =>
    obtain rfl : old.id = id := hc id old hstored
    rw [hstored] at ho
    dsimp only at ho
    split at ho
    · cases (c.get?_remove_self old).symm.trans ho
    · split at ho
      · rename_i hterminating
        obtain rfl := Option.some.inj (hstored.symm.trans ho)
        exact hterminating
      · have hself := c.get?_put_self .updated
          { old with deletionRequestedAt := some time, version := c.freshVersion }
        rw [← Option.some.inj (hself.symm.trans ho)]
        rfl

theorem Keyed.mem_ownedBy_iff {c : Cluster} (hc : c.Keyed) (owner : ResourceId) (kind : String)
    (o : ManagedObject) :
    o ∈ c.ownedBy owner kind ↔
      c.get? o.id = some o ∧ o.id.kind = kind ∧ o.owner = some owner := by
  have hstored : o ∈ c.objects.values ↔ c.get? o.id = some o := by
    unfold SortedMap.values
    rw [List.mem_map]
    constructor
    · rintro ⟨⟨id, o'⟩, hentry, rfl⟩
      have hget : c.get? id = some o' := (c.objects.get?_eq_some_iff id o').mpr hentry
      rwa [hc id o' hget]
    · exact fun hget => ⟨(o.id, o), (c.objects.get?_eq_some_iff o.id o).mp hget, rfl⟩
  unfold ownedBy ofKind ManagedObject.isOwnedBy
  rw [List.mem_filter, List.mem_filter, hstored, decide_eq_true_iff, decide_eq_true_iff, and_assoc]

/-- No identity is listed twice. -/
theorem Keyed.nodup_ownedBy {c : Cluster} (hc : c.Keyed) (owner : ResourceId) (kind : String) :
    ((c.ownedBy owner kind).map (·.id)).Nodup := by
  have hids : c.objects.values.map (·.id) = c.objects.entries.map (·.1) := by
    unfold SortedMap.values
    rw [List.map_map]
    refine List.map_congr_left fun e he => ?_
    exact hc e.1 e.2 ((c.objects.get?_eq_some_iff e.1 e.2).mpr he)
  have hsublist : (c.ownedBy owner kind).Sublist c.objects.values :=
    List.filter_sublist.trans List.filter_sublist
  exact (hsublist.map _).nodup (hids ▸ c.objects.distinct_keys)

/-- The objects of an owner were there before. -/
theorem Dwindles.exists_ownedBy {c c' : Cluster} (h : c.Dwindles c') (hc : c.Keyed)
    {owner : ResourceId} {kind : String} {o' : ManagedObject} (ho' : o' ∈ c'.ownedBy owner kind) :
    ∃ o ∈ c.ownedBy owner kind, o.id = o'.id ∧
      (o.isTerminating = true → o'.isTerminating = true) := by
  obtain ⟨hstored', hkind, howned⟩ := ((h.keyed hc).mem_ownedBy_iff owner kind o').mp ho'
  obtain ⟨o, hstored, howner, hterminating⟩ := h.earlier hc o'.id o' hstored'
  have hid := hc o'.id o hstored
  refine ⟨o, (hc.mem_ownedBy_iff owner kind o).mpr ⟨?_, ?_, ?_⟩, hid, hterminating⟩
  · rwa [hid]
  · rwa [hid]
  · rw [← howner, howned]

end Cluster

/-- All calls but those for a new object. -/
def ClusterCall.CreatesNothing : ClusterCall → Prop
  | create _ => False
  | get _ | patch .. | delete _ | ownedBy .. => True

/-- A call that creates nothing lets the cluster dwindle. -/
theorem ClusterCall.dwindles_answer (call : ClusterCall) (hcall : call.CreatesNothing) (now : Nat)
    (c : Cluster) : c.Dwindles (call.answer now c).2 := by
  have hwrite : ∀ (w : ClusterWrite) (c' : Cluster), (∀ o, w ≠ .create o) →
      (c.Keyed → ∃ answer, Cluster.Effect c w answer c') → c.Dwindles c' := by
    intro w c' hw heffect
    refine ⟨fun hc => ?_, fun hc => ?_⟩
    · obtain ⟨answer, h⟩ := heffect hc
      exact (h.dwindles hw).keyed hc
    · obtain ⟨answer, h⟩ := heffect hc
      exact (h.dwindles hw).earlier hc
  cases call with
  | get id => exact c.dwindles_refl
  | ownedBy owner kind => exact c.dwindles_refl
  | create o => cases hcall
  | patch id expected p =>
    exact hwrite (.patch id expected p) _ nofun fun hc => ⟨_, c.effect_patch hc id expected p⟩
  | delete id =>
    exact hwrite (.delete id (.ofMillis now)) _ nofun fun hc => ⟨_, c.effect_delete hc id _⟩

end Reconciliation
