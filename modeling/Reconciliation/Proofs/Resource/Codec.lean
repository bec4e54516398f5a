import Reconciliation.Proofs.Cluster.Lifetime
import Reconciliation.Proofs.Json.Record
import Reconciliation.Proofs.Time.Timestamp
import Reconciliation.Resource.Codec

/-!
Managed objects written as JSON and read again. Every field comes back as it was, except that a
null status is read as no status. Where the statuses and the deletion times of stored objects come
from tells which histories have objects that do not come back.
-/
namespace Reconciliation

/-- A set is what its members make up. -/
theorem SortedSet.ofList_toList (s : SortedSet String) : SortedSet.ofList s.toList = s :=
  List.foldl_map.trans s.ofList_entries

theorem ResourceId.ofJson?_toJson (id : ResourceId) : ofJson? id.toJson = some id := by
  have hkeys : ["kind", "namespace", "name"].Nodup := by decide
  have hns : Json.nullable Json.asString? (.optional .str id.ns) = some id.ns :=
    Json.nullable_optional (fun _ _ => rfl) fun _ => by simp
  unfold ofJson? toJson
  rw [Json.record?_object]
  case hkeys => exact hkeys
  simp only [Option.bind_eq_bind, Option.bind_some, List.lookup_cons, String.reduceBEq,
    Json.asString?, Json.optionalField, Json.defaulted, hns]

theorem Timestamp.ofJson?_text {t : Timestamp} (h : t.Valid) : ofJson? (.str t.text) = some t := by
  simp only [ofJson?, Json.asString?, Option.bind_eq_bind, Option.bind_some, parse?_text h]

namespace ManagedObject

/-- The object without a status where the status is null. -/
def readBack (o : ManagedObject) : ManagedObject :=
  { o with status := match o.status with
      | some .null => none
      | status => status }

theorem readBack_eq_self_iff (o : ManagedObject) : o.readBack = o ↔ o.status ≠ some .null := by
  obtain ⟨id, spec, status, version, generation, labels, owner, finalizers, deleted⟩ := o
  unfold readBack
  rcases status with - | - | - <;> simp

theorem nullable_status (o : ManagedObject) :
    Json.nullable some (o.status.getD .null) = some o.readBack.status := by
  obtain ⟨id, spec, status, version, generation, labels, owner, finalizers, deleted⟩ := o
  rcases status with - | - | - <;> rfl

/-- What is read from the JSON form of an object. -/
theorem ofJson?_toJson (o : ManagedObject)
    (htime : ∀ t, o.deletionRequestedAt = some t → t.Valid) :
    ofJson? o.toJson = some o.readBack := by
  have hkeys : fieldNames.Nodup := by decide
  have howner : Json.nullable ResourceId.ofJson? (.optional ResourceId.toJson o.owner) =
      some o.owner :=
    Json.nullable_optional (fun id _ => id.ofJson?_toJson) fun id => by
      rw [ResourceId.toJson, Json.object]
      simp
  have hdeleted : Json.nullable Timestamp.ofJson?
      (.optional (fun t => .str t.text) o.deletionRequestedAt) = some o.deletionRequestedAt :=
    Json.nullable_optional (fun t ht => Timestamp.ofJson?_text (htime t ht)) fun _ => by simp
  unfold ofJson? toJson
  rw [Json.record?_object]
  case hkeys => exact hkeys
  dsimp only [Option.bind_eq_bind, Option.bind_some, List.lookup, String.reduceBEq,
    Json.optionalField, Json.defaulted, Version.toJson]
  rw [ResourceId.ofJson?_toJson, Option.bind_some, nullable_status, Option.bind_some,
    Json.asUInt64?_nat, Option.bind_some, Json.asUInt64?_nat, Option.bind_some,
    Json.readStringMap?_object, Option.bind_some, howner, Option.bind_some,
    Json.readStrings?_texts, Option.bind_some, hdeleted, Option.bind_some,
    SortedSet.ofList_toList]
  rfl

end ManagedObject

/-- The status that the write gives to an object. -/
def ClusterWrite.statusFor (id : ResourceId) : ClusterWrite → Option Json
  | .create o => if o.id = id then o.status else none
  | .patch id' _ p => if id' = id then p.status else none
  | .editSpec _ _ | .delete _ _ | .injectConflicts _ _ => none

namespace Cluster

/-- What is reported of the object, and the time of its deletion request, come from these writes. -/
structure Sourced (ws : List ClusterWrite) (o : ManagedObject) : Prop where
  status : ∀ s, o.status = some s → ∃ w ∈ ws, w.statusFor o.id = some s
  deletion : ∀ t, o.deletionRequestedAt = some t → .delete o.id t ∈ ws

theorem Sourced.mono {ws more : List ClusterWrite} {o : ManagedObject} (h : Sourced ws o)
    (hsubset : ws ⊆ more) : Sourced more o where
  status s hs := (h.status s hs).imp fun _ hw => ⟨hsubset hw.1, hw.2⟩
  deletion t ht := hsubset (h.deletion t ht)

theorem sourced_newborn (c : Cluster) (ws : List ClusterWrite) (new : ManagedObject) :
    Sourced (ws ++ [.create new]) (c.newborn new) where
  status _ hs := ⟨.create new, List.mem_append_right ws (List.mem_singleton_self _),
    (if_pos rfl).trans hs⟩
  deletion := nofun

/-- An object keeps what it has unless a write to it says otherwise. -/
theorem Becomes.sourced {c : Cluster} {o o' : ManagedObject} {w : ClusterWrite}
    {answer : Except Error (Option ManagedObject)} (h : Becomes c o w answer (some o'))
    {ws : List ClusterWrite} (ho : Sourced ws o) : Sourced (ws ++ [w]) o' := by
  have hlast : w ∈ ws ++ [w] := List.mem_append_right ws (List.mem_singleton_self w)
  have hkept : Sourced (ws ++ [w]) o := ho.mono (List.subset_append_left ws [w])
  cases h with
  | kept => exact hkept
  | patched p =>
    refine ⟨fun s hs => ?_, hkept.deletion⟩
    change p.status.or o.status = some s at hs
    cases hpatch : p.status with
    | none =>
      rw [hpatch, Option.none_or] at hs
      exact hkept.status s hs
    | some s' =>
      rw [hpatch, Option.some_or] at hs
      exact ⟨_, hlast, (if_pos rfl).trans (hpatch.trans hs)⟩
  | edited spec => exact ⟨hkept.status, hkept.deletion⟩
  | marked hheld hactive time =>
    refine ⟨hkept.status, fun t ht => ?_⟩
    obtain rfl := Option.some.inj ht
    exact hlast

/-- What is stored has its status and its deletion time from the writes of the history. -/
theorem sourced_of_stored (ws : List ClusterWrite) (id : ResourceId) (o : ManagedObject)
    (ho : (ofHistory ws).get? id = some o) : Sourced ws o := by
  induction ws using List.reverseRecOn generalizing o with
  | nil => cases ho
  | append_singleton ws w ih =>
    have heffect := effect_next ws w
    cases hbefore : (ofHistory ws).get? id with
    | none =>
      obtain ⟨new, rfl, rfl, rfl⟩ := heffect.appears hbefore ho
      exact sourced_newborn _ ws new
    | some old =>
      obtain rfl : old.id = id := keyed_ofHistory ws id old hbefore
      have hbecomes := heffect.becomes hbefore
      rw [ho] at hbecomes
      exact hbecomes.sourced (ih old hbefore)

/-- Every stored object is read back from its JSON form, as it was unless its status is null; and
only a write that gives it a null status makes it so. -/
theorem stored_read_back (ws : List ClusterWrite)
    (htimes : ∀ id t, .delete id t ∈ ws → t.Valid) (id : ResourceId) (o : ManagedObject)
    (ho : (ofHistory ws).get? id = some o) :
    ManagedObject.ofJson? o.toJson = some o.readBack ∧
      (ManagedObject.ofJson? o.toJson = some o ↔ o.status ≠ some .null) ∧
      (o.status = some .null → ∃ w ∈ ws, w.statusFor id = some .null) := by
  have hsourced := sourced_of_stored ws id o ho
  have hread := o.ofJson?_toJson fun t ht => htimes o.id t (hsourced.deletion t ht)
  obtain rfl : o.id = id := keyed_ofHistory ws id o ho
  refine ⟨hread, ?_, hsourced.status .null⟩
  rw [hread, Option.some.injEq, o.readBack_eq_self_iff]

/-- A room of a house, which is not painted yet. -/
def unpainted : ManagedObject where
  id := ⟨"Room", some "west", "north"⟩
  spec := .obj [("paint", .null)]
  labels := .ofList [("floor", "2")]
  owner := some ⟨"House", none, "oak"⟩
  finalizers := .ofList ["keys/returned"]

/-- The room is inspected and given up. -/
def givenUp : List ClusterWrite :=
  [.create unpainted, .patch unpainted.id ⟨1⟩ (.setStatus (.arr [.null])),
    .delete unpainted.id ⟨1700000000, 5000000⟩]

/-- The room, terminating and with a status, is read back as it is stored. -/
theorem stored_read_back_givenUp :
    (∀ id t, .delete id t ∈ givenUp → t.Valid) ∧
      ∃ o, (ofHistory givenUp).get? unpainted.id = some o ∧ o.isTerminating = true ∧
        o.status = some (.arr [.null]) ∧ ManagedObject.ofJson? o.toJson = some o := by
  have htimes : ∀ id t, .delete id t ∈ givenUp → t.Valid := by
    intro id t ht
    simp only [givenUp, List.mem_cons, reduceCtorEq, ClusterWrite.delete.injEq, List.not_mem_nil,
      false_or, or_false] at ht
    obtain ⟨-, rfl⟩ := ht
    exact ⟨by decide, by decide, by decide⟩
  obtain ⟨o, ho, hterminating, hstatus⟩ : ∃ o, (ofHistory givenUp).get? unpainted.id = some o ∧
      o.isTerminating = true ∧ o.status = some (.arr [.null]) := ⟨_, rfl, rfl, rfl⟩
  have hread := stored_read_back givenUp htimes unpainted.id o ho
  refine ⟨htimes, o, ho, hterminating, hstatus, hread.2.1.mpr ?_⟩
  rw [hstatus]
  simp

/-- A report of nothing is lost. -/
theorem null_status_lost :
    ∃ o, (ofHistory [.create unpainted, .patch unpainted.id ⟨1⟩ (.setStatus .null)]).get?
        unpainted.id = some o ∧
      ManagedObject.ofJson? o.toJson = some { o with status := none } ∧
      ManagedObject.ofJson? o.toJson ≠ some o := by
  obtain ⟨o, ho, hstatus, hactive⟩ : ∃ o,
      (ofHistory [.create unpainted, .patch unpainted.id ⟨1⟩ (.setStatus .null)]).get?
        unpainted.id = some o ∧ o.status = some .null ∧ o.deletionRequestedAt = none :=
    ⟨_, rfl, rfl, rfl⟩
  have hread := o.ofJson?_toJson fun t ht => nomatch hactive.symm.trans ht
  have hlost : o.readBack = { o with status := none } := by rw [ManagedObject.readBack, hstatus]
  refine ⟨o, ho, hlost ▸ hread, fun hsame => ?_⟩
  exact (o.readBack_eq_self_iff).mp (Option.some.inj (hread.symm.trans hsame)) hstatus

end Cluster
end Reconciliation
