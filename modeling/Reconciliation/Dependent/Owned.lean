import Reconciliation.Cluster.Client
import Reconciliation.Dependent.Adapter

/-!
Dependents that are cluster objects owned by the primary.

A wanted object is in the namespace of the primary and names it as its owner. Objects agree
when their specs do; everything else about them is up to the cluster.
-/
namespace Reconciliation.Owned
variable {I : Interface}

/-- A wanted object of a kind. -/
def wanted (kind : String) (primary : ManagedObject) (name : String) (spec : Json) :
    ManagedObject where
  id := primary.id.sibling kind name
  spec := spec
  owner := some primary.id

def agrees (actual desired : ManagedObject) : Bool := actual.spec == desired.spec

def create (client : Client I) (desired : ManagedObject) : Action I (Except Error Unit) :=
  (client.create desired).andThen fun _ => .done (.ok ())

/-- Writes the wanted spec, provided that the object is still as it was observed. -/
def update (client : Client I) (actual desired : ManagedObject) : Action I (Except Error Unit) :=
  (client.patch actual.id actual.version (.setSpec desired.spec none)).andThen fun _ =>
    .done (.ok ())

/-- An object that is gone already counts as deleted. -/
def delete (client : Client I) (actual : ManagedObject) : Action I (Except Error Unit) :=
  (client.delete actual.id).bind fun outcome =>
    .done ((ignoreNotFound outcome).map fun _ => ())

/-- The name and the spec of an owned object, worked out from the primary. -/
abbrev Template := ManagedObject → Except Error (String × Json)

/-- The specs of a set of owned objects by name. -/
abbrev SetTemplate := ManagedObject → Except Error (SortedMap String Json)

def render (kind : String) (template : Template) (primary : ManagedObject) :
    Except Error ManagedObject :=
  (template primary).map fun e => wanted kind primary e.1 e.2

def renderSet (kind : String) (template : SetTemplate) (primary : ManagedObject) :
    Except Error (SortedMap String ManagedObject) :=
  (template primary).map fun specs => specs.map fun name spec => wanted kind primary name spec

/-- Looks the object up under the identity that the template gives it. -/
def secondary (client : Client I) (kind : String) (template : Template)
    (primary : ManagedObject) : Action I (Except Error (Option ManagedObject)) :=
  match render kind template primary with
  | .ok o => (client.get o.id).bind fun found => .done (.ok found)
  | .error e => .done (.error e)

/-- The owned objects of a kind by name; of two with one name the last one counts. -/
def secondaries (client : Client I) (kind : String) (primary : ManagedObject) :
    Action I (Except Error (SortedMap String ManagedObject)) :=
  (client.ownedBy primary.id kind).bind fun os =>
    .done (.ok (.ofList (os.map fun o => (o.id.name, o))))

def objectWrites (client : Client I) (kind : String) (template : Template) :
    SingletonWrites I ManagedObject where
  desired := fun primary _ => .done (render kind template primary)
  agrees := agrees
  create := fun desired _ _ => create client desired
  update := fun actual desired _ _ => update client actual desired
  delete := fun actual _ _ => delete client actual

def setWrites (client : Client I) (kind : String) (template : SetTemplate) :
    BulkAdapterWrites I ManagedObject where
  desired := fun primary _ => .done (renderSet kind template primary)
  agrees := agrees
  create := fun _ desired _ _ => create client desired
  update := fun _ actual desired _ _ => update client actual desired
  delete := fun _ actual _ _ => delete client actual

/-- One owned object, which is written unless it is only watched. -/
def object (client : Client I) (access : Access) (kind : String) (template : Template) :
    Adapter I ManagedObject :=
  .singleton (fun primary _ => secondary client kind template primary)
    (match access with
      | .mutating => some (objectWrites client kind template)
      | .readOnly => none)

/-- A set of owned objects. -/
def objects (client : Client I) (access : Access) (kind : String) (template : SetTemplate) :
    Adapter I ManagedObject :=
  .bulk (fun primary _ => secondaries client kind primary)
    (match access with
      | .mutating => some (setWrites client kind template)
      | .readOnly => none)

end Reconciliation.Owned
