import Reconciliation.Proofs.Cluster.Lifetime

/-!
Clusters that refuse no write without a reason. There a write does what it asks for: an object
that is missing is created, one that is stored takes a patch for its version, and one that nothing
holds is deleted. Each of these is a turn of one identity, and a run of turns of different
identities brings each of them to where it was to be brought.
-/
namespace Reconciliation.Cluster

/-- No conflict waits to be injected, and nothing is stored that has only to be removed. -/
structure Tame (c : Cluster) : Prop where
  keyed : c.Keyed
  unreleased : ∀ id o, c.get? id = some o → o.isReleased = false
  peaceful : ∀ id, c.conflictsLeft id = 0

theorem tame_ofHistory (ws : List ClusterWrite)
    (hpeaceful : ∀ id, (ofHistory ws).conflictsLeft id = 0) : (ofHistory ws).Tame :=
  ⟨keyed_ofHistory ws, isReleased_of_stored ws, hpeaceful⟩

theorem create_of_absent (c : Cluster) (o : ManagedObject) (habsent : c.get? o.id = none) :
    c.create o = (.ok (c.newborn o), c.put .added (c.newborn o)) := by
  have hcontains : c.objects.contains o.id = false := by
    unfold SortedMap.contains
    rw [show c.objects.get? o.id = none from habsent]
    rfl
  unfold create
  rw [hcontains]
  rfl

/-- Where nothing is to be refused, a patch for the stored version is applied. -/
theorem patch_of_stored (c : Cluster) (o : ManagedObject) (hstored : c.get? o.id = some o)
    (hpeaceful : c.conflictsLeft o.id = 0) (p : ObjectPatch)
    (hkept : (c.renew (p.applyTo o)).isReleased = false) :
    c.patch o.id o.version p =
      (.ok (c.renew (p.applyTo o)), c.put .updated (c.renew (p.applyTo o))) := by
  refine Prod.ext (c.patch_of_current o.id o hstored hpeaceful p) ?_
  unfold patch
  split
  · rename_i n hleft
    unfold conflictsLeft at hpeaceful
    rw [hleft] at hpeaceful
    cases hpeaceful
  · unfold checkedPatch
    rw [hstored]
    dsimp only
    rw [if_pos rfl]
    exact if_neg (Bool.eq_false_iff.mp hkept)

theorem delete_of_free (c : Cluster) (o : ManagedObject) (hstored : c.get? o.id = some o)
    (hfree : o.finalizers.isEmpty = true) (time : Timestamp) :
    c.delete o.id time = (.ok (), c.remove o) := by
  unfold delete
  rw [hstored]
  exact if_pos hfree

/-- The second cluster is tame too and differs from the first one at most at that identity, where
it stores what it should. -/
structure Turns (c : Cluster) (id : ResourceId) (wanted : Option ManagedObject → Prop)
    (c' : Cluster) : Prop where
  tame : c'.Tame
  there : wanted (c'.get? id)
  elsewhere : ∀ id', id' ≠ id → c'.get? id' = c.get? id'

/-- What differs from a tame cluster at one identity only is tame if what it stores there may be. -/
theorem Tame.of_elsewhere {c c' : Cluster} (htame : c.Tame) (id : ResourceId)
    (helsewhere : ∀ id', id' ≠ id → c'.get? id' = c.get? id')
    (hthere : ∀ o, c'.get? id = some o → o.id = id ∧ o.isReleased = false)
    (hinjected : c'.injected = c.injected) : c'.Tame := by
  have hstored : ∀ id' o, c'.get? id' = some o → o.id = id' ∧ o.isReleased = false := by
    intro id' o ho
    by_cases hid : id' = id
    · obtain rfl := hid
      exact hthere o ho
    · rw [helsewhere id' hid] at ho
      exact ⟨htame.keyed id' o ho, htame.unreleased id' o ho⟩
  refine ⟨fun id' o ho => (hstored id' o ho).1, fun id' o ho => (hstored id' o ho).2,
    fun id' => ?_⟩
  unfold conflictsLeft
  rw [hinjected]
  exact htame.peaceful id'

theorem Tame.turns_put {c : Cluster} (htame : c.Tame) (action : ChangeAction) (o : ManagedObject)
    (ho : o.isReleased = false) : c.Turns o.id (· = some o) (c.put action o) := by
  have hself := c.get?_put_self action o
  have helsewhere := c.get?_put_of_ne action o
  refine ⟨htame.of_elsewhere o.id helsewhere (fun o' ho' => ?_) rfl, hself, helsewhere⟩
  rw [← Option.some.inj (hself.symm.trans ho')]
  exact ⟨rfl, ho⟩

theorem Tame.turns_remove {c : Cluster} (htame : c.Tame) (o : ManagedObject) :
    c.Turns o.id (· = none) (c.remove o) := by
  have hself := c.get?_remove_self o
  have helsewhere := c.get?_remove_of_ne o
  refine ⟨htame.of_elsewhere o.id helsewhere (fun o' ho' => ?_) rfl, hself, helsewhere⟩
  cases hself.symm.trans ho'

end Reconciliation.Cluster
