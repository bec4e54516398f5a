import Reconciliation.Resource.Id
import Reconciliation.Time.Timestamp

/-!
Managed objects and the changes that a write makes to them.

An object is active until its deletion is requested and terminating from then on. Users write
the spec, the engine the status; the generation counts the changes of the spec.
-/
namespace Reconciliation

/-- An object of the cluster: what is wanted, what is reported, and bookkeeping. -/
structure ManagedObject where
  id : ResourceId
  spec : Json
  status : Option Json := none
  version : Version := ⟨0⟩
  generation : UInt64 := 0
  labels : SortedMap String String := {}
  owner : Option ResourceId := none
  finalizers : SortedSet String := {}
  deletionRequestedAt : Option Timestamp := none
  deriving Inhabited

/-- An object is active until its deletion is requested. -/
inductive Lifecycle where
  | active
  | terminating
  deriving DecidableEq

namespace ManagedObject

def lifecycle (o : ManagedObject) : Lifecycle :=
  if o.deletionRequestedAt.isSome then .terminating else .active

def isTerminating (o : ManagedObject) : Bool := o.lifecycle = .terminating

def hasFinalizer (o : ManagedObject) (f : String) : Bool := o.finalizers.contains f

def isOwnedBy (o : ManagedObject) (owner : ResourceId) : Bool := o.owner = some owner

end ManagedObject

/-- What a write changes; an absent part stays as it is. -/
structure ObjectPatch where
  spec : Option Json := none
  status : Option Json := none
  addFinalizer : Option String := none
  removeFinalizer : Option String := none
  deriving Inhabited

namespace ObjectPatch

def setStatus (status : Json) : ObjectPatch := { status := some status }

def setSpec (spec : Json) (status : Option Json) : ObjectPatch := { spec := some spec, status }

def withFinalizer (f : String) : ObjectPatch := { addFinalizer := some f }

def withoutFinalizer (f : String) : ObjectPatch := { removeFinalizer := some f }

def isEmpty (p : ObjectPatch) : Bool :=
  p.spec.isNone && p.status.isNone && p.addFinalizer.isNone && p.removeFinalizer.isNone

/-- The generation counts a spec that differs from the one before. -/
def nextGeneration (p : ObjectPatch) (o : ManagedObject) : UInt64 :=
  match p.spec with
  | some spec => if spec == o.spec then o.generation else saturatingSucc o.generation
  | none => o.generation

/-- A finalizer that is added and removed at once is gone. -/
def nextFinalizers (p : ObjectPatch) (fs : SortedSet String) : SortedSet String :=
  let added := match p.addFinalizer with
    | some f => SortedSet.add fs f
    | none => fs
  match p.removeFinalizer with
  | some f => added.erase f
  | none => added

/-- The object after the change, still under its old version. -/
def applyTo (p : ObjectPatch) (o : ManagedObject) : ManagedObject :=
  { o with
    spec := p.spec.getD o.spec
    status := p.status.or o.status
    generation := p.nextGeneration o
    finalizers := p.nextFinalizers o.finalizers }

end ObjectPatch
end Reconciliation
