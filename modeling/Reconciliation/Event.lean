import Reconciliation.Resource.Codec

/-!
Changes of the cluster and the causes of dispatches that follow from them.
-/
namespace Reconciliation

/-- What happened to an object. -/
inductive ChangeAction where
  | added
  | updated
  | deleted
  deriving DecidableEq

/-- A change of the cluster, with the object as it is afterwards. -/
structure ChangeEvent where
  action : ChangeAction
  object : ManagedObject

/-- Why an identity is dispatched. -/
inductive TriggerCause where
  | added
  | updated
  | deleted
  | rescheduled
  | retry
  | dependentEvent
  deriving DecidableEq

namespace ChangeAction

def name : ChangeAction → String
  | added => "Added"
  | updated => "Updated"
  | deleted => "Deleted"

def ofName? : String → Option ChangeAction
  | "Added" => some added
  | "Updated" => some updated
  | "Deleted" => some deleted
  | _ => none

def cause : ChangeAction → TriggerCause
  | added => .added
  | updated => .updated
  | deleted => .deleted

end ChangeAction

namespace TriggerCause

def text : TriggerCause → String
  | added => "added"
  | updated => "updated"
  | deleted => "deleted"
  | rescheduled => "rescheduled"
  | retry => "retry"
  | dependentEvent => "dependent-event"

def ofName? : String → Option TriggerCause
  | "Added" => some added
  | "Updated" => some updated
  | "Deleted" => some deleted
  | "Rescheduled" => some rescheduled
  | "Retry" => some retry
  | "DependentEvent" => some dependentEvent
  | _ => none

end TriggerCause

namespace ChangeEvent

def toJson (e : ChangeEvent) : Json :=
  .object [("action", .str e.action.name), ("object", e.object.toJson)]

def ofJson? (j : Json) : Option ChangeEvent := do
  let field ← j.record? ["action", "object"] 2 true
  some {
    action := ← ChangeAction.ofName? (← (← field "action").caseName?)
    object := ← ManagedObject.ofJson? (← field "object") }

/-- One line that says what happened to which version of which object. -/
def summary (e : ChangeEvent) : String :=
  e.action.name ++ " " ++ e.object.id.text ++ " v" ++ e.object.version.text ++ " g"
    ++ toString e.object.generation.toNat

end ChangeEvent

/-- The coalesced causes that one dispatch answers. -/
structure ReconciliationRequest where
  id : ResourceId
  causes : List TriggerCause
  deriving DecidableEq

end Reconciliation
