import Reconciliation.Error
import Reconciliation.Event

/-!
The objects of a cluster and the writes on them.

Versions come from one counter for all objects and a patch is checked against the version it
expects. An object that still has finalizers when it is deleted only becomes terminating; it
leaves the store with its last finalizer. Every write that changes the store is logged. Of the
log the feed keeps the latest 1024 changes; a reader that falls further behind loses the older
ones.
-/
namespace Reconciliation

/-- The stored objects with the history of their changes. -/
structure Cluster where
  objects : SortedMap ResourceId ManagedObject := {}
  lastVersion : UInt64 := 0
  /-- Patches still to be refused, by identity. -/
  injected : SortedMap ResourceId Nat := {}
  /-- The number of writes that changed the store. It is not bounded: runs of 2 ^ 64 such writes,
  after which a counter of 64 bits starts again, are left out. -/
  writes : Nat := 0
  /-- The committed changes, the newest first. -/
  log : List ChangeEvent := []
  deriving Inhabited

namespace Cluster

def get? (c : Cluster) (id : ResourceId) : Option ManagedObject := c.objects.get? id

def current (c : Cluster) (id : ResourceId) : Except Error ManagedObject :=
  match c.get? id with
  | some o => .ok o
  | none => .error (.notFound id)

/-- The objects of a kind, ordered by identity. -/
def ofKind (c : Cluster) (kind : String) : List ManagedObject :=
  c.objects.values.filter fun o => o.id.kind = kind

def ownedBy (c : Cluster) (owner : ResourceId) (kind : String) : List ManagedObject :=
  (c.ofKind kind).filter fun o => o.isOwnedBy owner

def writeCount (c : Cluster) : Nat := c.writes

def freshVersion (c : Cluster) : Version := ⟨saturatingSucc c.lastVersion⟩

/-- Counts and logs a change of the store. -/
def commit (c : Cluster) (e : ChangeEvent) : Cluster :=
  { c with writes := c.writes + 1, log := e :: c.log }

/-- Stores an object under the fresh version that it carries. -/
def put (c : Cluster) (action : ChangeAction) (o : ManagedObject) : Cluster :=
  { c with objects := c.objects.insert o.id o, lastVersion := c.lastVersion + 1 }.commit
    ⟨action, o⟩

/-- Removes an object whose last state is `o`. -/
def remove (c : Cluster) (o : ManagedObject) : Cluster :=
  { c with objects := c.objects.erase o.id }.commit ⟨.deleted, o⟩

def create (c : Cluster) (o : ManagedObject) : Except Error ManagedObject × Cluster :=
  if c.objects.contains o.id then (.error (.alreadyExists o.id), c)
  else
    let created :=
      { o with version := c.freshVersion, generation := 1, deletionRequestedAt := none }
    (.ok created, c.put .added created)

/-- Stores the outcome of a change, or removes a terminating object without finalizers. -/
def settle (c : Cluster) (o : ManagedObject) : Cluster :=
  if o.isTerminating && o.finalizers.isEmpty then
    { c.remove o with lastVersion := c.lastVersion + 1 }
  else c.put .updated o

/-- A write that succeeds only on the version it expects. -/
def checkedPatch (c : Cluster) (id : ResourceId) (expected : Version) (p : ObjectPatch) :
    Except Error ManagedObject × Cluster :=
  match c.get? id with
  | none => (.error (.notFound id), c)
  | some o =>
    if o.version = expected then
      let updated := { p.applyTo o with version := c.freshVersion }
      (.ok updated, c.settle updated)
    else (.error (.conflict id expected o.version), c)

/-- A patch; an injected conflict refuses it before anything else is looked at. -/
def patch (c : Cluster) (id : ResourceId) (expected : Version) (p : ObjectPatch) :
    Except Error ManagedObject × Cluster :=
  match c.injected.get? id with
  | some (n + 1) =>
    let seen := ((c.get? id).map (·.version)).getD expected
    (.error (.conflict id expected seen.next), { c with injected := c.injected.insert id n })
  | _ => c.checkedPatch id expected p

/-- A user's edit of the spec, without a version check. -/
def editSpec (c : Cluster) (id : ResourceId) (spec : Json) :
    Except Error ManagedObject × Cluster :=
  match c.get? id with
  | none => (.error (.notFound id), c)
  | some o =>
    let updated := { (ObjectPatch.setSpec spec none).applyTo o with version := c.freshVersion }
    (.ok updated, c.put .updated updated)

/-- Requests the deletion of an object at a time. -/
def delete (c : Cluster) (id : ResourceId) (time : Timestamp) : Except Error Unit × Cluster :=
  match c.get? id with
  | none => (.error (.notFound id), c)
  | some o =>
    if o.finalizers.isEmpty then (.ok (), c.remove o)
    else if o.isTerminating then (.ok (), c)
    else
      let marked := { o with deletionRequestedAt := some time, version := c.freshVersion }
      (.ok (), c.put .updated marked)

/-- Makes the next `count` patches of an object fail with a conflict. -/
def injectConflicts (c : Cluster) (id : ResourceId) (count : Nat) : Cluster :=
  { c with injected := c.injected.insert id count }

def feedCapacity : Nat := 1024

/-- The changes after the first `position` ones that the feed still keeps, in order. -/
def changesSince (c : Cluster) (position : Nat) : List ChangeEvent :=
  (c.log.take (min feedCapacity (c.log.length - position))).reverse

end Cluster
end Reconciliation
