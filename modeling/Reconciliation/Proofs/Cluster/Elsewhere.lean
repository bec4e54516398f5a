import Reconciliation.Proofs.Cluster.Standing

/-!
What a write does to the identities that it is not about: nothing is committed there, what is stored
stays, and no conflict is injected. So an object that a dispatch has read stands as long as all
other writes are about other identities, and a patch of it that succeeds finds it as it was.
-/
namespace Reconciliation

/-- The identity that the write is about. -/
def ClusterWrite.target : ClusterWrite → ResourceId
  | create o => o.id
  | patch id .. | editSpec id _ | delete id _ | injectConflicts id _ => id

namespace Cluster

/-- A write leaves all other identities alone. -/
theorem Effect.elsewhere {c c' : Cluster} {w : ClusterWrite}
    {answer : Except Error (Option ManagedObject)} (h : Effect c w answer c') (id : ResourceId)
    (hid : w.target ≠ id) : Stands c c' id ∧ c'.conflictsLeft id ≤ c.conflictsLeft id := by
  have hlog : ∀ e : ChangeEvent, e.object.id ≠ id →
      (e :: c.log).filter (fun e => e.object.id = id) = c.changesOf id := fun e he => by
    simp [changesOf, he]
  have hput : ∀ action o, o.id ≠ id → Stands c (c.put action o) id := fun action o ho =>
    ⟨hlog ⟨action, o⟩ ho, c.get?_put_of_ne action o id ho.symm⟩
  have hremove : ∀ o, o.id ≠ id → Stands c (c.remove o) id := fun o ho =>
    ⟨hlog ⟨.deleted, o⟩ ho, c.get?_remove_of_ne o id ho.symm⟩
  cases h with
  | failed w e injected hfewer => exact ⟨⟨rfl, rfl⟩, hfewer id⟩
  | injected id' count =>
    refine ⟨⟨rfl, rfl⟩, Nat.le_of_eq ?_⟩
    exact congrArg (·.getD 0) (c.injected.get?_insert_of_ne id' count id hid.symm)
  | created o => exact ⟨hput _ _ hid, Nat.le_refl _⟩
  | patched o => exact ⟨hput _ _ hid, Nat.le_refl _⟩
  | released o _ p =>
    have hgone := hremove (c.renew (p.applyTo o)) hid
    exact ⟨⟨hgone.changes, hgone.stored⟩, Nat.le_refl _⟩
  | edited o => exact ⟨hput _ _ hid, Nat.le_refl _⟩
  | removed o => exact ⟨hremove _ hid, Nat.le_refl _⟩
  | held => exact ⟨stands_self c id, Nat.le_refl _⟩
  | marked o => exact ⟨hput _ _ hid, Nat.le_refl _⟩

/-- So do writes one after another. -/
theorem elsewhere_ofHistory (ws more : List ClusterWrite) (id : ResourceId)
    (h : ∀ w ∈ more, w.target ≠ id) :
    Stands (ofHistory ws) (ofHistory (ws ++ more)) id ∧
      (ofHistory (ws ++ more)).conflictsLeft id ≤ (ofHistory ws).conflictsLeft id := by
  induction more using List.reverseRecOn with
  | nil =>
    rw [List.append_nil]
    exact ⟨stands_self _ id, Nat.le_refl _⟩
  | append_singleton more w ih =>
    rw [List.forall_mem_append, List.forall_mem_singleton] at h
    obtain ⟨hstands, hfewer⟩ := ih h.1
    rw [← List.append_assoc]
    obtain ⟨hstep, hless⟩ := (effect_next (ws ++ more) w).elsewhere id h.2
    exact ⟨hstands.trans hstep, Nat.le_trans hless hfewer⟩

/-- A patch that succeeds, with what it leaves in the store. -/
theorem patch_ok (ws : List ClusterWrite) (id : ResourceId) (v : Version) (p : ObjectPatch)
    (updated : ManagedObject) (h : ((ofHistory ws).patch id v p).1 = .ok updated) :
    ∃ o, o.version = v ∧ (ofHistory ws).get? id = some o ∧
      updated = (ofHistory ws).renew (p.applyTo o) ∧
      ((ofHistory ws).patch id v p).2.get? id =
        if updated.isReleased then none else some updated := by
  have heffect := (ofHistory ws).effect_patch (keyed_ofHistory ws) id v p
  rw [h] at heffect
  obtain ⟨o, _, hv, hstored, hupdated, hafter⟩ := heffect.of_patch
  exact ⟨o, hv, hstored, hupdated, hafter⟩

end Cluster

end Reconciliation
