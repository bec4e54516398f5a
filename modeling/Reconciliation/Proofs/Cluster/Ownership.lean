import Reconciliation.Cluster.Client
import Reconciliation.Proofs.Sorted.Lookup

/-!
What writes leave alone. A write changes the store at one identity only, and keeps the owner of
what is stored there. So a run of writes at identities that nobody else's object has leaves the
objects of all other owners as they were.
-/
namespace Reconciliation

namespace SortedMap
variable {κ : Type u} {α : Type v} [Ord κ] [Std.TransOrd κ] [Std.LawfulEqOrd κ]

theorem get?_insert_of_ne (m : SortedMap κ α) (k : κ) (a : α) (k' : κ) (h : k' ≠ k) :
    (m.insert k a).get? k' = m.get? k' := by
  rw [get?_insert, if_neg]
  exact fun hcompare => h (Std.LawfulEqOrd.eq_of_compare hcompare)

theorem get?_insert_self (m : SortedMap κ α) (k : κ) (a : α) :
    (m.insert k a).get? k = some a := by
  rw [get?_insert, if_pos Std.compare_self]

theorem get?_erase_of_ne (m : SortedMap κ α) (k k' : κ) (h : k' ≠ k) :
    (m.erase k).get? k' = m.get? k' := by
  rw [get?_erase, if_neg]
  exact fun hcompare => h (Std.LawfulEqOrd.eq_of_compare hcompare)

theorem get?_erase_self (m : SortedMap κ α) (k : κ) : (m.erase k).get? k = none := by
  rw [get?_erase, if_pos Std.compare_self]

end SortedMap

namespace Cluster

/-- Every object is stored under its own identity. -/
def Keyed (c : Cluster) : Prop := ∀ id o, c.get? id = some o → o.id = id

theorem keyed_empty : ({} : Cluster).Keyed := by
  intro id o h
  cases h

/-- The second cluster differs from the first one at most by an object of that identity, which
has one of these owners. -/
structure ChangesAt (c : Cluster) (id : ResourceId) (owners : Option ResourceId → Prop)
    (c' : Cluster) : Prop where
  elsewhere : ∀ id', id' ≠ id → c'.get? id' = c.get? id'
  there : ∀ o, c'.get? id = some o → o.id = id ∧ owners o.owner

theorem changesAt_put (c : Cluster) (action : ChangeAction) (o : ManagedObject)
    (owners : Option ResourceId → Prop) (ho : owners o.owner) :
    c.ChangesAt o.id owners (c.put action o) := by
  refine ⟨fun id hne => c.objects.get?_insert_of_ne o.id o id hne, fun o' ho' => ?_⟩
  rw [show (c.put action o).get? o.id = some o from c.objects.get?_insert_self o.id o] at ho'
  rw [← Option.some.inj ho']
  exact ⟨rfl, ho⟩

theorem changesAt_remove (c : Cluster) (o : ManagedObject) (owners : Option ResourceId → Prop) :
    c.ChangesAt o.id owners (c.remove o) := by
  refine ⟨fun id hne => c.objects.get?_erase_of_ne o.id id hne, fun o' ho' => ?_⟩
  rw [show (c.remove o).get? o.id = none from c.objects.get?_erase_self o.id] at ho'
  cases ho'

theorem changesAt_settle (c : Cluster) (o : ManagedObject) (owners : Option ResourceId → Prop)
    (ho : owners o.owner) : c.ChangesAt o.id owners (c.settle o) := by
  unfold settle
  split
  · exact ⟨(c.changesAt_remove o owners).elsewhere, (c.changesAt_remove o owners).there⟩
  · exact c.changesAt_put .updated o owners ho

theorem changesAt_self (c : Cluster) (hc : c.Keyed) (id : ResourceId)
    (owners : Option ResourceId → Prop) (ho : ∀ o, c.get? id = some o → owners o.owner) :
    c.ChangesAt id owners c :=
  ⟨fun _ _ => rfl, fun o h => ⟨hc id o h, ho o h⟩⟩

theorem ChangesAt.keyed {c c' : Cluster} {id : ResourceId} {owners : Option ResourceId → Prop}
    (h : c.ChangesAt id owners c') (hc : c.Keyed) : c'.Keyed := by
  intro id' o ho
  by_cases heq : id' = id
  · subst heq
    exact (h.there o ho).1
  · rw [h.elsewhere id' heq] at ho
    exact hc id' o ho

section Writes
variable (c : Cluster) (hc : c.Keyed) (owners : Option ResourceId → Prop)
include hc

/-- A new object has the owner that it is created with. -/
theorem changesAt_create (o : ManagedObject) (ho : owners o.owner)
    (hold : ∀ old, c.get? o.id = some old → owners old.owner) :
    c.ChangesAt o.id owners (c.create o).2 := by
  unfold create
  split
  · exact c.changesAt_self hc o.id owners hold
  · exact c.changesAt_put .added { o with
      version := c.freshVersion, generation := 1, deletionRequestedAt := none } owners ho

variable (id : ResourceId) (hold : ∀ o, c.get? id = some o → owners o.owner)
include hold

/-- A patch keeps the owner. -/
theorem changesAt_checkedPatch (expected : Version) (p : ObjectPatch) :
    c.ChangesAt id owners (c.checkedPatch id expected p).2 := by
  unfold checkedPatch
  cases hget : c.get? id with
  | none => exact c.changesAt_self hc id owners hold
  | some o =>
    dsimp only
    split
    · have hid : o.id = id := hc id o hget
      have hsettled := c.changesAt_settle { p.applyTo o with version := c.freshVersion } owners
        (hold o hget)
      rw [← hid]
      exact hsettled
    · exact c.changesAt_self hc id owners hold

theorem changesAt_patch (expected : Version) (p : ObjectPatch) :
    c.ChangesAt id owners (c.patch id expected p).2 := by
  unfold patch
  split
  · have hself := c.changesAt_self hc id owners hold
    exact ⟨hself.elsewhere, hself.there⟩
  · exact c.changesAt_checkedPatch hc owners id hold expected p

/-- A deletion removes an object or only marks it. -/
theorem changesAt_delete (time : Timestamp) :
    c.ChangesAt id owners (c.delete id time).2 := by
  unfold delete
  cases hget : c.get? id with
  | none => exact c.changesAt_self hc id owners hold
  | some o =>
    have hid : o.id = id := hc id o hget
    dsimp only
    rw [← hid]
    split
    · exact c.changesAt_remove o owners
    · split
      · rw [hid]
        exact c.changesAt_self hc id owners hold
      · exact c.changesAt_put .updated { o with
          deletionRequestedAt := some time, version := c.freshVersion } owners (hold o hget)

end Writes

/-- The calls of a client keep every object under its own identity. -/
theorem Keyed.answer {c : Cluster} (hc : c.Keyed) (now : Nat) (call : ClusterCall) :
    (call.answer now c).2.Keyed := by
  cases call with
  | get id => exact hc
  | create o =>
    exact (c.changesAt_create hc (fun _ => True) o trivial fun _ _ => trivial).keyed hc
  | patch id expected p =>
    exact (c.changesAt_patch hc (fun _ => True) id (fun _ _ => trivial) expected p).keyed hc
  | delete id =>
    exact (c.changesAt_delete hc (fun _ => True) id (fun _ _ => trivial) (.ofMillis now)).keyed hc
  | ownedBy owner kind => exact hc

theorem Keyed.editSpec {c : Cluster} (hc : c.Keyed) (id : ResourceId) (spec : Json) :
    (c.editSpec id spec).2.Keyed := by
  unfold Cluster.editSpec
  cases hget : c.get? id with
  | none => exact hc
  | some o => exact (c.changesAt_put .updated _ (fun _ => True) trivial).keyed hc

/-- The clusters that clients and users can make of an empty one. -/
inductive Written : Cluster → Prop
  | empty : Written {}
  | answer {c : Cluster} (h : Written c) (now : Nat) (call : ClusterCall) :
      Written (call.answer now c).2
  | editSpec {c : Cluster} (h : Written c) (id : ResourceId) (spec : Json) :
      Written (c.editSpec id spec).2
  | injectConflicts {c : Cluster} (h : Written c) (id : ResourceId) (count : Nat) :
      Written (c.injectConflicts id count)

theorem Written.keyed {c : Cluster} (h : Written c) : c.Keyed := by
  induction h with
  | empty => exact keyed_empty
  | answer _ now call ih => exact ih.answer now call
  | editSpec _ id spec ih => exact ih.editSpec id spec
  | injectConflicts _ id count ih => exact ih

/-- The objects of all owners but one are the same as in an earlier cluster. -/
structure Spares (owner : ResourceId) (earlier c : Cluster) : Prop where
  keyed : c.Keyed
  others : ∀ id o, o.owner ≠ some owner → (c.get? id = some o ↔ earlier.get? id = some o)

/-- No object of anybody but the owner was stored under the identity. -/
def FreeFor (owner : ResourceId) (earlier : Cluster) (id : ResourceId) : Prop :=
  ∀ o, earlier.get? id = some o → o.owner = some owner

theorem spares_self (owner : ResourceId) (c : Cluster) (hc : c.Keyed) : Spares owner c c :=
  ⟨hc, fun _ _ _ => Iff.rfl⟩

section Spared
variable {owner : ResourceId} {earlier c c' : Cluster} (h : Spares owner earlier c)
include h

/-- What is stored under a free identity belongs to the owner. -/
theorem Spares.owned_of_free (id : ResourceId) (hfree : FreeFor owner earlier id)
    (o : ManagedObject) (ho : c.get? id = some o) : o.owner = some owner := by
  refine Decidable.byContradiction fun hne => ?_
  exact hne (hfree o ((h.others id o hne).mp ho))

/-- An object of the owner shows that its identity is free. -/
theorem Spares.free_of_owned (o : ManagedObject) (ho : c.get? o.id = some o)
    (howned : o.owner = some owner) : FreeFor owner earlier o.id := by
  intro o' ho'
  refine Decidable.byContradiction fun hne => ?_
  have hstored := (h.others o.id o' hne).mpr ho'
  rw [ho] at hstored
  rw [← Option.some.inj hstored] at hne
  exact hne howned

theorem Spares.free_of_absent (id : ResourceId) (hget : c.get? id = none) :
    FreeFor owner earlier id := by
  intro o ho
  refine Decidable.byContradiction fun hne => ?_
  have hstored := (h.others id o hne).mpr ho
  rw [hget] at hstored
  cases hstored

/-- A change at a free identity spares all others. -/
theorem Spares.change (id : ResourceId) (hfree : FreeFor owner earlier id)
    (hchange : c.ChangesAt id (· = some owner) c') : Spares owner earlier c' := by
  refine ⟨hchange.keyed h.keyed, fun id' o hne => ?_⟩
  by_cases heq : id' = id
  · subst heq
    constructor
    · intro ho
      exact absurd (hchange.there o ho).2 hne
    · intro ho
      exact absurd (hfree o ho) hne
  · rw [hchange.elsewhere id' heq]
    exact h.others id' o hne

theorem Spares.patch (id : ResourceId) (hfree : FreeFor owner earlier id) (expected : Version)
    (p : ObjectPatch) : Spares owner earlier (c.patch id expected p).2 :=
  h.change id hfree
    (c.changesAt_patch h.keyed _ id (h.owned_of_free id hfree) expected p)

theorem Spares.delete (id : ResourceId) (hfree : FreeFor owner earlier id) (time : Timestamp) :
    Spares owner earlier (c.delete id time).2 :=
  h.change id hfree (c.changesAt_delete h.keyed _ id (h.owned_of_free id hfree) time)

/-- Creating never writes over an object, so any identity will do. -/
theorem Spares.create (o : ManagedObject) (howned : o.owner = some owner) :
    Spares owner earlier (c.create o).2 := by
  by_cases hcontains : c.objects.contains o.id = true
  · unfold Cluster.create
    rw [if_pos hcontains]
    exact h
  · have habsent : c.get? o.id = none := by
      unfold SortedMap.contains at hcontains
      exact Option.not_isSome_iff_eq_none.mp hcontains
    refine h.change o.id (h.free_of_absent o.id habsent)
      (c.changesAt_create h.keyed _ o howned fun old hold => ?_)
    rw [habsent] at hold
    cases hold

/-- Only free identities are listed for the owner. -/
theorem Spares.free_of_ownedBy (kind : String) (o : ManagedObject)
    (ho : o ∈ c.ownedBy owner kind) : FreeFor owner earlier o.id := by
  unfold Cluster.ownedBy Cluster.ofKind SortedMap.values at ho
  obtain ⟨hkind, howned⟩ := List.mem_filter.mp ho
  obtain ⟨hmem, _⟩ := List.mem_filter.mp hkind
  obtain ⟨⟨id, o'⟩, hentry, rfl⟩ := List.mem_map.mp hmem
  have hstored : c.get? id = some o' := (c.objects.get?_eq_some_iff id o').mpr hentry
  have hid : o'.id = id := h.keyed id o' hstored
  refine h.free_of_owned o' (by rw [hid]; exact hstored) ?_
  simpa [ManagedObject.isOwnedBy] using howned

end Spared
end Cluster
end Reconciliation
