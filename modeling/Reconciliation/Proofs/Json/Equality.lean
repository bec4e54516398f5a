import Reconciliation.Proofs.Cluster.Continuity

/-!
Values that are equal to themselves. Only a float that is no number is not, and an object is just
when each of its fields is.
-/
namespace Reconciliation.Json

theorem sameFields_self_iff (fields : List (String × Json)) :
    sameFields fields fields = true ↔ ∀ e ∈ fields, e.2.Reflexive := by
  induction fields with
  | nil => exact iff_of_true rfl nofun
  | cons e rest ih =>
    rw [List.forall_mem_cons, sameFields, Bool.and_eq_true, Bool.and_eq_true, ih]
    exact and_congr_left fun _ => and_iff_right (beq_self_eq_true e.1)

theorem reflexive_obj_iff (fields : List (String × Json)) :
    (obj fields).Reflexive ↔ ∀ e ∈ fields, e.2.Reflexive := by
  rw [← sameFields_self_iff]
  unfold Reflexive
  change same _ _ = true ↔ _
  rw [same]

/-- An object of values that are equal to themselves is one. -/
theorem reflexive_object (fields : List (String × Json)) (h : ∀ e ∈ fields, e.2.Reflexive) :
    (object fields).Reflexive := by
  have hinsert : ∀ (l : List (String × Json)), (∀ e ∈ l, e.2.Reflexive) →
      ∀ e ∈ fields.foldl (fun l e => SortedMap.insertEntry e.1 e.2 l) l, e.2.Reflexive := by
    induction fields with
    | nil => exact fun _ hl => hl
    | cons first rest ih =>
      rw [List.forall_mem_cons] at h
      refine fun l hl => ih h.2 _ fun e he => ?_
      rcases SortedMap.mem_insertEntry he with rfl | he
      · exact h.1
      · exact hl e he
  exact (reflexive_obj_iff _).mpr (hinsert [] nofun)

theorem Reflexive.get? {j : Json} (h : j.Reflexive) (k : String) (v : Json)
    (hv : j.get? k = some v) : v.Reflexive := by
  cases j with
  | obj fields => exact (reflexive_obj_iff fields).mp h (k, v) (Association.mem_of_lookup fields k v hv)
  | _ => cases hv

theorem reflexive_str (s : String) : (str s).Reflexive := by
  unfold Reflexive
  change same _ _ = true
  rw [same, beq_self_eq_true]

theorem reflexive_nat (n : Nat) : (nat n).Reflexive := by
  unfold Reflexive nat
  change same _ _ = true
  rw [same, beq_self_eq_true]

theorem reflexive_bool (b : Bool) : (bool b).Reflexive := by
  unfold Reflexive
  change same _ _ = true
  rw [same, beq_self_eq_true]

end Reconciliation.Json
