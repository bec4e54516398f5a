import Reconciliation.Json.Record
import Reconciliation.Resource.Object

/-!
The JSON form of identities and managed objects.

Null and a missing field both stand for no status, so a status that is the value null is read
back as none.
-/
namespace Reconciliation

def ResourceId.ofJson? (j : Json) : Option ResourceId := do
  let field ← j.record? ["kind", "namespace", "name"] 3 true
  some {
    kind := ← (← field "kind").asString?
    ns := ← Json.optionalField Json.asString? (field "namespace")
    name := ← (← field "name").asString? }

def Timestamp.ofJson? (j : Json) : Option Timestamp := do Timestamp.parse? (← j.asString?)

namespace ManagedObject

def fieldNames : List String :=
  ["id", "spec", "status", "version", "generation", "labels", "owner", "finalizers",
    "deletion_requested_at"]

def toJson (o : ManagedObject) : Json :=
  .object [
    ("id", o.id.toJson),
    ("spec", o.spec),
    ("status", o.status.getD .null),
    ("version", o.version.toJson),
    ("generation", .nat o.generation.toNat),
    ("labels", .object (o.labels.entries.map fun e => (e.1, .str e.2))),
    ("owner", .optional ResourceId.toJson o.owner),
    ("finalizers", .arr (o.finalizers.toList.map .str)),
    ("deletion_requested_at", .optional (fun t => .str t.text) o.deletionRequestedAt)]

def ofJson? (j : Json) : Option ManagedObject := do
  let field ← j.record? fieldNames 5 true
  some {
    id := ← ResourceId.ofJson? (← field "id")
    spec := ← field "spec"
    status := ← Json.optionalField some (field "status")
    version := ⟨← (← field "version").asUInt64?⟩
    generation := ← (← field "generation").asUInt64?
    labels := ← Json.defaulted {} Json.readStringMap? (field "labels")
    owner := ← Json.optionalField ResourceId.ofJson? (field "owner")
    finalizers := SortedSet.ofList (← Json.defaulted [] Json.readStrings? (field "finalizers"))
    deletionRequestedAt := ←
      Json.optionalField Timestamp.ofJson? (field "deletion_requested_at") }

end ManagedObject
end Reconciliation
