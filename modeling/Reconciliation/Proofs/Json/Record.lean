import Reconciliation.Json.Record
import Reconciliation.Proofs.Sorted.Lookup

/-!
Records in JSON. A record written as an object of distinct fields is read field by field, whatever
order the object keeps them in, and each kind of field gives back what was written.
-/
namespace Reconciliation

namespace SortedMap

theorem foldl_insertEntry {κ : Type u} {α : Type v} [Ord κ] [Std.TransOrd κ] (l : List (κ × α)) :
    ∀ m : SortedMap κ α, l.foldl (fun l e => insertEntry e.1 e.2 l) m.entries =
      (l.foldl (fun m e => m.insert e.1 e.2) m).entries := by
  induction l with
  | nil => exact fun _ => rfl
  | cons e l ih => exact fun m => ih (m.insert e.1 e.2)

variable {κ : Type u} {α : Type v} [Ord κ] [Std.TransOrd κ] [Std.LawfulEqOrd κ] [BEq κ]
  [LawfulBEq κ]

/-- Under distinct keys it does not matter in which order the entries stand. -/
theorem get?_ofList_of_distinct {l : List (κ × α)} (hkeys : (l.map (·.1)).Nodup) (k : κ) :
    (ofList l).get? k = l.lookup k := by
  have hreverse : (l.reverse.map (·.1)).Nodup := by
    rw [List.map_reverse]
    exact List.pairwise_reverse.mpr (hkeys.imp Ne.symm)
  ext a
  rw [get?_ofList, Association.lookup_eq_some_iff _ hreverse, Association.lookup_eq_some_iff _ hkeys,
    List.mem_reverse]

omit [Std.TransOrd κ] in
theorem lookup_entries (m : SortedMap κ α) (k : κ) : m.entries.lookup k = m.get? k := by
  ext a
  rw [Association.lookup_eq_some_iff _ m.distinct_keys, get?_eq_some_iff]

/-- A map is what its entries make up. -/
theorem ofList_entries (m : SortedMap κ α) : ofList m.entries = m :=
  eq_of_get?_eq _ _ fun k => by rw [get?_ofList_of_distinct m.distinct_keys, lookup_entries]

end SortedMap

namespace Json

theorem object_eq_obj (fields : List (String × Json)) :
    object fields = obj (SortedMap.ofList fields).entries :=
  congrArg obj (SortedMap.foldl_insertEntry fields SortedMap.empty)

theorem record?_object {fields : List (String × Json)} (hkeys : (fields.map (·.1)).Nodup)
    (names : List String) (least : Nat) (strict : Bool) :
    (object fields).record? names least strict = some fun k => fields.lookup k := by
  rw [object_eq_obj, record?]
  refine congrArg some (funext fun k => ?_)
  rw [SortedMap.lookup_entries, SortedMap.get?_ofList_of_distinct hkeys]

theorem mapM_eq_some {f : α → Option β} {g : β → α} (h : ∀ b, f (g b) = some b) (l : List β) :
    (l.map g).mapM f = some l := by
  induction l with
  | nil => rfl
  | cons b l ih =>
    rw [List.map_cons, List.mapM_cons, h, ih]
    rfl

theorem readStrings?_texts (items : List String) : readStrings? (arr (items.map str)) = some items := by
  rw [readStrings?, asItems?]
  exact mapM_eq_some (f := asString?) (g := str) (fun _ => rfl) items

/-- The object of a map of texts. -/
theorem readStringMap?_object (m : SortedMap String String) :
    readStringMap? (object (m.entries.map fun e => (e.1, str e.2))) = some m := by
  have hobject : object (m.entries.map fun e => (e.1, str e.2)) =
      obj (m.entries.map fun e => (e.1, str e.2)) := by
    rw [object_eq_obj]
    exact congrArg (fun m => obj m.entries) (SortedMap.ofList_entries (m.map fun _ => str))
  have hentries : (m.entries.map fun e => (e.1, str e.2)).mapM
      (fun e => e.2.asString?.map (e.1, ·)) = some m.entries :=
    mapM_eq_some (g := fun e : String × String => (e.1, str e.2)) (fun _ => rfl) _
  rw [hobject, readStringMap?, asFields?]
  dsimp only [Option.bind_eq_bind, Option.bind_some]
  rw [hentries]
  exact congrArg some m.ofList_entries

theorem asUInt64?_nat (n : UInt64) : asUInt64? (nat n.toNat) = some n := by
  have hfits : n.toNat ≤ maxUInt64 := Nat.le_pred_of_lt n.toNat_lt
  change (if n.toNat ≤ maxUInt64 then some n.toNat else none).map (·.toUInt64) = _
  rw [if_pos hfits]
  exact congrArg some UInt64.ofNat_toNat

theorem asUInt32?_nat (n : UInt32) : asUInt32? (nat n.toNat) = some n := by
  have hfits : n.toNat ≤ maxUInt32 := Nat.le_pred_of_lt n.toNat_lt
  change (if n.toNat ≤ maxUInt32 then some n.toNat else none).map (·.toUInt32) = _
  rw [if_pos hfits]
  exact congrArg some UInt32.ofNat_toNat

/-- Reading an optional field whose value, where there is one, is written as something. -/
theorem nullable_optional {read : Json → Option α} {write : α → Json} {a : Option α}
    (h : ∀ x, a = some x → read (write x) = some x) (hnull : ∀ x, write x ≠ null) :
    nullable read (optional write a) = some a := by
  cases a with
  | none => rfl
  | some x =>
    rw [optional, nullable, h x rfl]
    · rfl
    · exact hnull x

end Json
end Reconciliation
