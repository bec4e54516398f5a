import Reconciliation.Dependent.Node
import Reconciliation.Scenario.Fixture

/-!
Scripted conditions.

A rule may look at the primary, at what is observed, and at the context. A row of rules takes
the next one at each evaluation and stays with the last. Evaluations are journalled, except for
the two rules that only ask whether something is there.
-/
namespace Reconciliation.Scenario

/-- A scripted condition. -/
inductive Rule where
  | present
  | absent
  | constant (b : Bool)
  | error (e : Error)
  | field (name : String)
  | minLength (n : Nat)
  | isEmpty (b : Bool)
  | equals (v : Json)
  | member (key : String)
  | lastAttempt (b : Bool)
  | cause (text : String)
  | primary (text : String)
  | row (rules : List Rule)

namespace Rule

def readWithin : Nat → Json → Option Rule
  | _, .str "exists" => some .present
  | _, .str "absent" => some .absent
  | _, .bool b => some (.constant b)
  | 0, _ => none
  | fuel + 1, .obj [(key, v)] =>
    match key with
    | "error" => (readError v).map error
    | "field" => v.asString?.map field
    | "min_len" => (v.asNat? Json.maxUInt64).map minLength
    | "is_empty" => v.asBool?.map isEmpty
    | "equals" => some (.equals v)
    | "member" => v.asString?.map member
    | "last_attempt" => v.asBool?.map lastAttempt
    | "cause" => v.asString?.map cause
    | "primary" => v.asString?.map Rule.primary
    | "seq" => do
      let rules ← readList (readWithin fuel) v
      if rules.isEmpty then none else some (.row rules)
    | _ => none
  | _, _ => none

def read (j : Json) : Option Rule := readWithin (depth j) j

/-- What a rule may look at. -/
structure View where
  primary : ManagedObject
  ctx : Context
  isPresent : Bool
  size : Nat
  single : Option Json
  keys : List String

mutual

/-- The verdict of a rule; rows count their evaluations under a label. -/
def evaluate (label : String) (v : View) : Rule → Action fixtures (Except Error Bool)
  | present => .done (.ok v.isPresent)
  | absent => .done (.ok !v.isPresent)
  | constant b => .done (.ok b)
  | error e => .done (.error e)
  | field name => .done (.ok ((v.primary.spec.get? name).any (· == .bool true)))
  | minLength n => .done (.ok (n ≤ v.size))
  | isEmpty b => .done (.ok ((v.size == 0) == b))
  | equals j => .done (.ok (v.single.any (· == j)))
  | member key => .done (.ok (v.keys.contains key))
  | lastAttempt b => .done (.ok (v.ctx.isLastAttempt == b))
  | cause text => .done (.ok (v.ctx.causes.any (·.text == text)))
  | primary text => .done (.ok (v.ctx.primary.text == text))
  | row rules => (count label).bind fun n => evaluateNth label v n rules

/-- The rule at a place, or the last one. -/
def evaluateNth (label : String) (v : View) (n : Nat) :
    List Rule → Action fixtures (Except Error Bool)
  | [] => .done (.ok true)
  | [r] => evaluate (label ++ "/0") v r
  | r :: next :: rest =>
    if n = 0 then evaluate (label ++ "/" ++ toString (rest.length + 1)) v r
    else evaluateNth label v (n - 1) (next :: rest)

end

/-- A rule as a condition of a dependent, whose resources are shown by `value`. -/
def condition (node : String) (kind : ConditionKind) (value : R → Json) (r : Rule) :
    Condition fixtures R :=
  match r with
  | present => Condition.present
  | absent => Condition.absent
  | r => fun primary observed ctx =>
    let v : View := {
      primary, ctx
      isPresent := observed.isPresent
      size := observed.size
      single := observed.single?.map value
      keys := (observed.members?.map (·.keys)).getD [] }
    (note ("check-" ++ kind.text ++ ":" ++ node)).bind fun _ =>
      r.evaluate (node ++ "/" ++ kind.text) v

end Rule

/-- The scripted conditions of a dependent. -/
abbrev Rules := ConditionKind → Option Rule

def Rules.none : Rules := fun _ => Option.none

def Rules.key : ConditionKind → String
  | .activation => "activation"
  | .reconcilePrecondition => "precondition"
  | .ready => "ready"
  | .cleanupReady => "cleanup"

def Rules.read (j : Json) : Option Rules := do
  let _ ← j.asFields?
  let rule := fun kind => optionalOf Rule.read j (Rules.key kind)
  let activation ← rule .activation
  let precondition ← rule .reconcilePrecondition
  let ready ← rule .ready
  let cleanup ← rule .cleanupReady
  some fun
    | .activation => activation
    | .reconcilePrecondition => precondition
    | .ready => ready
    | .cleanupReady => cleanup

end Reconciliation.Scenario
