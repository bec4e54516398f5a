import Reconciliation.Dependent.Owned
import Reconciliation.Scenario.Rule

/-!
Scripted dependents.

A scripted single or bulk dependent holds values of its own and journals what is asked of it;
an owned one is made of cluster objects, and its names and specs follow a rule.
-/
namespace Reconciliation.Scenario

/-- When an actual value needs no update. -/
inductive Agreement where
  | equal
  | always
  | never
  /-- Equal as numbers; what is no number is not told apart. -/
  | sameNumber

def Agreement.holds : Agreement → Json → Json → Bool
  | equal, a, b => a == b
  | always, _, _ => true
  | never, _, _ => false
  | sameNumber, a, b => a.asFloat? == b.asFloat?

def Agreement.read (j : Json) : Option Agreement := do
  match ← fieldOr "default" Json.asString? j "match" with
  | "default" | "eq" => some .equal
  | "always" => some .always
  | "never" => some .never
  | "loose" => some .sameNumber
  | _ => none

/-- How the spec of an owned object follows from the primary. -/
inductive SpecRule where
  | error (e : Error)
  | fields (base : Json) (copy : List String) (index : Bool)

namespace SpecRule

def read (j : Json) : Option SpecRule := do
  match j.given? "error" with
  | some e => return .error (← readError e)
  | none =>
    let _ ← j.asFields?
    some (.fields ((j.given? "const").getD (.obj [])) (← fieldOr [] Json.readStrings? j "copy")
      (← flagOf j "index"))

def render (primary : ManagedObject) (index : Nat) : SpecRule → Except Error Json
  | error e => .error e
  | fields (.obj base) copy withIndex =>
    let copied := copy.map fun f => (f, (primary.spec.get? f).getD .null)
    let indexed := if withIndex then [("index", .nat index)] else []
    .ok (.object (base ++ copied ++ indexed))
  | fields base _ _ => .ok base

end SpecRule

/-- The kind of a scripted dependent, with what it starts from. -/
inductive Shape where
  | single (stored : Option Json) (desired : Json)
  | bulk (stored desired : SortedMap String Json)
  | owned (kind objectName : String) (spec : SpecRule)
  | ownedSet (kind namesField : String) (spec : SpecRule)

/-- A declared dependent of a scenario. -/
structure NodeScript where
  name : String
  dependsOn : List String
  access : Access
  shape : Shape
  rules : Rules
  agreement : Agreement
  delays : SortedMap String Nat
  faults : SortedMap String Fault

namespace NodeScript

def readFault (label : String) (j : Json) : Option Fault := do
  some {
    label
    error := ← fieldOf readError j "error"
    start := ← wordOr 0 j "from"
    times := ← optionalOf (Json.asNat? Json.maxUInt64) j "times" }

def readFaults (name : String) (j : Json) : Option (SortedMap String Fault) := do
  let entries ← (← j.asFields?).mapM fun e =>
    (readFault (name ++ "/fail/" ++ e.1) e.2).map (e.1, ·)
  some (.ofList entries)

def readMap (read : Json → Option α) (j : Json) : Option (SortedMap String α) :=
  (readFields read j).map .ofList

def readShape (j : Json) : Option Shape := do
  let values := fieldOr {} (readMap some) j
  let spec ← fieldOr (.fields (.obj []) [] false) SpecRule.read j "spec"
  let kind := fieldOf Json.asString? j "kind"
  match ← fieldOr "single" Json.asString? j "type" with
  | "single" => some (.single (j.given? "stored") ((j.given? "desired").getD (.nat 1)))
  | "bulk" => return .bulk (← values "stored") (← values "desired")
  | "owned" =>
    return .owned (← kind) (← fieldOr "\x7b\x7d" Json.asString? j "object_name") spec
  | "owned_set" => return .ownedSet (← kind) (← fieldOf Json.asString? j "names_field") spec
  | _ => none

def read (j : Json) : Option NodeScript := do
  let name ← fieldOf Json.asString? j "name"
  some {
    name
    dependsOn := ← fieldOr [] Json.readStrings? j "depends_on"
    access := ← match ← fieldOr "mutating" Json.asString? j "access" with
      | "mutating" => some .mutating
      | "read_only" => some .readOnly
      | _ => none
    shape := ← readShape j
    rules := ← fieldOr .none Rules.read j "conditions"
    agreement := ← Agreement.read j
    delays := ← fieldOr {} (readMap (Json.asNat? Json.maxUInt64)) j "delay_ms"
    faults := ← fieldOr {} (readFaults name) j "fail" }

/-- A journalled call of a verb, on one member if there is a key. The slot of the member is looked
at before the slot of the verb; without a key both are the same slot, which is looked at twice. -/
def act (n : NodeScript) (verb : String) (key : Option String := none)
    (preamble : Option String := none) : Act :=
  let suffix := match key with
    | some k => "[" ++ k ++ "]"
    | none => ""
  let slots := [verb ++ suffix, verb]
  {
    preamble := preamble.map fun p => p ++ ":" ++ n.name
    line := verb ++ suffix ++ ":" ++ n.name
    doneLine := verb ++ suffix ++ "-done:" ++ n.name
    delay := slots.findSome? n.delays.get?
    faults := slots.filterMap n.faults.get? }

def stored? : Holding → Option Json
  | .single stored _ => stored
  | .bulk .. => none

def desired : Holding → Json
  | .single _ desired => desired
  | .bulk .. => .null

def storedMembers : Holding → SortedMap String Json
  | .single .. => {}
  | .bulk stored _ => stored

def desiredMembers : Holding → SortedMap String Json
  | .single .. => {}
  | .bulk _ desired => desired

/-- A successful act followed by a look at what the node holds. -/
def observing (n : NodeScript) (verb : String) (value : Holding → α) :
    Action fixtures (Except Error α) :=
  (perform (n.act verb)).andThen fun _ => (look n.name).bind fun h => .done (.ok (value h))

/-- A successful act followed by a change of what the node holds. -/
def changing (n : NodeScript) (a : Act) (change : Holding → Holding) :
    Action fixtures (Except Error Unit) :=
  (perform a).andThen fun _ =>
    (look n.name).bind fun h => (keep n.name (change h)).bind fun _ => .done (.ok ())

def setStored (v : Option Json) : Holding → Holding
  | .single _ desired => .single v desired
  | h => h

def changeMembers (f : SortedMap String Json → SortedMap String Json) : Holding → Holding
  | .bulk stored desired => .bulk (f stored) desired
  | h => h

def singleWrites (n : NodeScript) : SingletonWrites fixtures Json where
  desired := fun _ _ => n.observing "desired" desired
  agrees := n.agreement.holds
  create := fun v _ _ => n.changing (n.act "create") (setStored (some v))
  update := fun actual v _ _ =>
    let preamble := "diff(" ++ actual.render ++ "->" ++ v.render ++ ")"
    n.changing (n.act "update" none (some preamble)) (setStored (some v))
  delete := fun actual _ _ =>
    n.changing (n.act "delete" none (some ("drop(" ++ actual.render ++ ")"))) (setStored none)

def bulkWrites (n : NodeScript) : BulkAdapterWrites fixtures Json where
  desired := fun _ _ => n.observing "desired" desiredMembers
  agrees := n.agreement.holds
  create := fun k v _ _ => n.changing (n.act "create" (some k)) (changeMembers (·.insert k v))
  update := fun k _ v _ _ => n.changing (n.act "update" (some k)) (changeMembers (·.insert k v))
  delete := fun k _ _ _ => n.changing (n.act "delete" (some k)) (changeMembers (·.erase k))

def writesFor (n : NodeScript) (writes : α) : Option α :=
  match n.access with
  | .mutating => some writes
  | .readOnly => none

def nameFrom (pattern : String) (primary : ManagedObject) : String :=
  pattern.replace "\x7b\x7d" primary.id.name

/-- The names of a set: the texts of a list, or a counted row of names. -/
def namesFrom (field : String) (primary : ManagedObject) : List String :=
  match primary.spec.get? field with
  | some (.arr items) => items.filterMap Json.asString?
  | some v =>
    (List.range ((v.asNat? Json.maxUInt64).getD 0)).map fun i =>
      primary.id.name ++ "-" ++ toString i
  | none => []

def setTemplate (field : String) (spec : SpecRule) : Owned.SetTemplate := fun primary => do
  let specs ← (namesFrom field primary).zipIdx.mapM fun e => do
    return (e.1, ← spec.render primary e.2)
  match spec with
  | .error e => throw e
  | _ => return .ofList specs

def dependent (n : NodeScript) (value : R → Json) (adapter : Adapter fixtures R) :
    Dependent fixtures R where
  name := n.name
  dependsOn := n.dependsOn
  adapter := adapter
  condition? := fun kind => (n.rules kind).map fun r => r.condition n.name kind value

def toNode (n : NodeScript) : Node fixtures :=
  match n.shape with
  | .single .. =>
    (n.dependent id (.singleton (fun _ _ => n.observing "secondary" stored?)
      (n.writesFor n.singleWrites))).toNode
  | .bulk .. =>
    (n.dependent id (.bulk (fun _ _ => n.observing "secondaries" storedMembers)
      (n.writesFor n.bulkWrites))).toNode
  | .owned kind pattern spec =>
    (n.dependent ManagedObject.spec (Owned.object client n.access kind fun primary => do
      return (nameFrom pattern primary, ← spec.render primary 0))).toNode
  | .ownedSet kind field spec =>
    (n.dependent ManagedObject.spec
      (Owned.objects client n.access kind (setTemplate field spec))).toNode

/-- What the node holds before anything happened. -/
def holding? (n : NodeScript) : Option Holding :=
  match n.shape with
  | .single stored desired => some (.single stored desired)
  | .bulk stored desired => some (.bulk stored desired)
  | _ => none

def holdings (nodes : List NodeScript) : SortedMap String Holding :=
  .ofList (nodes.filterMap fun n => n.holding?.map (n.name, ·))

end NodeScript
end Reconciliation.Scenario
