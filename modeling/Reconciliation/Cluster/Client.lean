import Reconciliation.Cluster.Store
import Reconciliation.Task.Basic

/-!
Access to a cluster from a task.

A client is what a task needs of an environment to read and write objects. The plain client
belongs to the environment that is nothing but a cluster.
-/
namespace Reconciliation

/-- The operations on a cluster that dependents are built from. -/
structure Client (I : Interface) where
  get : ResourceId → Action I (Option ManagedObject)
  create : ManagedObject → Action I (Except Error ManagedObject)
  patch : ResourceId → Version → ObjectPatch → Action I (Except Error ManagedObject)
  delete : ResourceId → Action I (Except Error Unit)
  ownedBy : ResourceId → String → Action I (List ManagedObject)

/-- A request to a cluster. -/
inductive ClusterCall where
  | get (id : ResourceId)
  | create (o : ManagedObject)
  | patch (id : ResourceId) (expected : Version) (p : ObjectPatch)
  | delete (id : ResourceId)
  | ownedBy (owner : ResourceId) (kind : String)

namespace ClusterCall

def Reply : ClusterCall → Type
  | get _ => Option ManagedObject
  | create _ => Except Error ManagedObject
  | patch .. => Except Error ManagedObject
  | delete _ => Except Error Unit
  | ownedBy .. => List ManagedObject

/-- The answer of a cluster at a time of so many milliseconds. -/
def answer (now : Nat) : (c : ClusterCall) → Cluster → c.Reply × Cluster
  | get id, s => (s.get? id, s)
  | create o, s => s.create o
  | patch id expected p, s => s.patch id expected p
  | delete id, s => s.delete id (.ofMillis now)
  | ownedBy owner kind, s => (s.ownedBy owner kind, s)

end ClusterCall

namespace Client

def plainInterface : Interface := ⟨ClusterCall, ClusterCall.Reply⟩

def plain : Client plainInterface where
  get := fun id => Action.ask (I := plainInterface) (.get id)
  create := fun o => Action.ask (I := plainInterface) (.create o)
  patch := fun id expected p => Action.ask (I := plainInterface) (.patch id expected p)
  delete := fun id => Action.ask (I := plainInterface) (.delete id)
  ownedBy := fun owner kind => Action.ask (I := plainInterface) (.ownedBy owner kind)

end Client
end Reconciliation
