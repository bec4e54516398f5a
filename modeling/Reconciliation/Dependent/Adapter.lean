import Reconciliation.Bulk.Plan
import Reconciliation.Dependent.Outcome
import Reconciliation.Event
import Reconciliation.Retry.Policy

/-!
Adapters: how the engine observes a dependent and brings it to its desired state. They are told
the circumstances of the dispatch, as are the conditions and the reconciler.

An adapter without writes is read-only. Its reconcile pass counts what it observes and its
delete pass does nothing.
-/
namespace Reconciliation

/-- The circumstances of a dispatch. -/
structure Context where
  primary : ResourceId
  retry : Option RetryInfo := none
  causes : List TriggerCause := []
  passResult : Option PassResult := none

namespace Context

def isLastAttempt (c : Context) : Bool := c.retry.any (·.lastAttempt)

end Context
/-- How one resource is brought to its desired state. -/
structure SingletonWrites (I : Interface) (R : Type) where
  desired : ManagedObject → Context → Action I (Except Error R)
  agrees : R → R → Bool
  create : R → ManagedObject → Context → Action I (Except Error Unit)
  update : R → R → ManagedObject → Context → Action I (Except Error Unit)
  delete : R → ManagedObject → Context → Action I (Except Error Unit)

/-- How the members of a bulk dependent are brought to their desired states. -/
structure BulkAdapterWrites (I : Interface) (R : Type) where
  desired : ManagedObject → Context → Action I (Except Error (SortedMap String R))
  agrees : R → R → Bool
  create : String → R → ManagedObject → Context → Action I (Except Error Unit)
  update : String → R → R → ManagedObject → Context → Action I (Except Error Unit)
  delete : String → R → ManagedObject → Context → Action I (Except Error Unit)

namespace BulkAdapterWrites
variable {I : Interface} {R : Type}

def on (w : BulkAdapterWrites I R) (primary : ManagedObject) (ctx : Context) : BulkWrites I R where
  create := fun key wanted => w.create key wanted primary ctx
  update := fun key actual wanted => w.update key actual wanted primary ctx
  delete := fun key actual => w.delete key actual primary ctx

end BulkAdapterWrites

/-- Access to the resources of a dependent: one of them at most, or members by key. -/
inductive Adapter (I : Interface) (R : Type) where
  | singleton (secondary : ManagedObject → Context → Action I (Except Error (Option R)))
      (writes : Option (SingletonWrites I R))
  | bulk (secondaries : ManagedObject → Context → Action I (Except Error (SortedMap String R)))
      (writes : Option (BulkAdapterWrites I R))

namespace Adapter
variable {I : Interface} {R : Type}

def accessOf (writes : Option α) : Access := if writes.isSome then .mutating else .readOnly

def capability : Adapter I R → Capability
  | singleton _ writes => ⟨accessOf writes, .singleton⟩
  | bulk _ writes => ⟨accessOf writes, .bulk⟩

def observe (a : Adapter I R) (primary : ManagedObject) (ctx : Context) :
    Action I (Except Error (Observed R)) :=
  match a with
  | singleton secondary _ => (secondary primary ctx).andThen fun v => .done (.ok (.single v))
  | bulk secondaries _ => (secondaries primary ctx).andThen fun m => .done (.ok (.bulk m))

/-- Brings one resource to its desired state. -/
def reconcileSingleton (secondary : Action I (Except Error (Option R)))
    (w : SingletonWrites I R) (primary : ManagedObject) (ctx : Context) :
    Action I (Except Error Operations) :=
  (w.desired primary ctx).andThen fun desired =>
    secondary.andThen fun
      | none => (w.create desired primary ctx).andThen fun _ => .done (.ok { created := 1 })
      | some actual =>
        if w.agrees actual desired then .done (.ok { unchanged := 1 })
        else (w.update actual desired primary ctx).andThen fun _ => .done (.ok { updated := 1 })

def deleteSingleton (secondary : Action I (Except Error (Option R)))
    (w : SingletonWrites I R) (primary : ManagedObject) (ctx : Context) :
    Action I (Except Error Operations) :=
  secondary.andThen fun
    | none => .done (.ok {})
    | some actual => (w.delete actual primary ctx).andThen fun _ => .done (.ok { deleted := 1 })

def reconcile (a : Adapter I R) (name : String) (primary : ManagedObject) (ctx : Context) :
    Task I Error (Except Error Operations) :=
  match a with
  | singleton secondary none =>
    .ofAction ((secondary primary ctx).andThen fun v =>
      .done (.ok { unchanged := if v.isSome then 1 else 0 }))
  | singleton secondary (some w) =>
    .ofAction (reconcileSingleton (secondary primary ctx) w primary ctx)
  | bulk secondaries none =>
    .ofAction ((secondaries primary ctx).andThen fun m => .done (.ok { unchanged := m.size }))
  | bulk secondaries (some w) =>
    (Task.ofAction (w.desired primary ctx)).andThen fun desired =>
      (Task.ofAction (secondaries primary ctx)).andThen fun actual =>
        (BulkPlan.between w.agrees actual desired).apply name (w.on primary ctx)

def delete (a : Adapter I R) (name : String) (primary : ManagedObject) (ctx : Context) :
    Task I Error (Except Error Operations) :=
  match a with
  | singleton _ none | bulk _ none => .done (.ok {})
  | singleton secondary (some w) =>
    .ofAction (deleteSingleton (secondary primary ctx) w primary ctx)
  | bulk secondaries (some w) =>
    (Task.ofAction (secondaries primary ctx)).andThen fun observed =>
      (BulkPlan.deletion observed).apply name (w.on primary ctx)

end Adapter
end Reconciliation
