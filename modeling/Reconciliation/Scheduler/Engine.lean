import Reconciliation.Scheduler.Completion
import Reconciliation.Task.Clocked

/-!
A scheduler at work on a clock.

One thing happens after another: whatever can go on gets a turn, in the order in which it
became able to. The loop over the ready queue takes a worker before it takes an identity, and
a new timer counts its delay from its first turn. The clock moves only when no turn is left,
and then to the next time at which a timer or a dispatch is due.
-/
namespace Reconciliation

/-- How dispatches are carried out in a world, and what is done along with the loop over the
ready queue. A dispatch that ends without a summary has crashed. A call of the loop may be
answered before it begins. -/
structure Host (π σ : Type) where
  start : Nat → ReconciliationRequest → Option RetryInfo → σ →
    Standing π (Option DispatchSummary) × σ
  resume : Nat → π → σ → Standing π (Option DispatchSummary) × σ
  dues : π → List Nat
  beforeRun : Scheduler → σ → Option (Except Error Unit) × Scheduler × σ := fun s w => (none, s, w)
  attend : Scheduler → σ → Scheduler × σ := fun s w => (s, w)
  wantsAttention : σ → Bool := fun _ => false

/-- Something that can go on. -/
inductive Turn where
  | run (second : Bool)
  | serve
  | start (request : ReconciliationRequest) (retry : Option RetryInfo)
  | resume (id : ResourceId)
  | arm (t : ArmedTimer)
  | fire (t : ArmedTimer)

/-- The loop over the ready queue: it waits for a worker, holds one and waits for an identity,
or waits for the dispatches in flight to end. -/
inductive ServingLoop where
  | absent
  | waiting (holdsWorker : Bool)
  | draining
  deriving DecidableEq

/-- A scheduler with its dispatches, its clock and the world that they work on. -/
structure Engine (π σ : Type) where
  scheduler : Scheduler
  world : σ
  now : Nat := 0
  turns : List Turn := []
  serving : ServingLoop := .absent
  /-- The loop belongs to a call that was made while another one had not returned. -/
  servesSecond : Bool := false
  /-- The dispatches in flight, without a process until their first turn. -/
  inFlight : SortedMap ResourceId (Option π) := {}
  /-- Turns that are due later, in the order in which they were asked for. -/
  alarms : List (Nat × Turn) := []
  /-- The timers that have been given a turn to count their delay. -/
  timersSeen : Nat := 0
  /-- The outcomes of the latest calls of the loop, until they are reported. -/
  outcome : Option (Except Error Unit) := none
  secondOutcome : Option (Except Error Unit) := none

namespace Engine
variable {π σ : Type}

def queueTurns (e : Engine π σ) (ts : List Turn) : Engine π σ := { e with turns := e.turns ++ ts }

def conclude (e : Engine π σ) (second : Bool) (outcome : Except Error Unit) : Engine π σ :=
  if second then { e with secondOutcome := some outcome } else { e with outcome := some outcome }

def freeWorkers (e : Engine π σ) : Nat := max e.scheduler.config.workers 1 - e.inFlight.size

def servable (host : Host π σ) (e : Engine π σ) : Bool :=
  match e.serving with
  | .absent => false
  | .waiting holds =>
    e.scheduler.stopRequested || host.wantsAttention e.world ||
      (if holds then !e.scheduler.ready.isEmpty else 0 < e.freeWorkers)
  | .draining => e.inFlight.isEmpty

def Turn.isServe : Turn → Bool
  | .serve => true
  | _ => false

/-- Gives turns to what has become able to go on: new timers, then the loop. -/
def refresh (host : Host π σ) (e : Engine π σ) : Engine π σ :=
  let fresh := (e.scheduler.armed.take (e.scheduler.armed.length - e.timersSeen)).reverse
  let e := { e.queueTurns (fresh.map .arm) with timersSeen := e.scheduler.armed.length }
  if e.servable host && !e.turns.any Turn.isServe then e.queueTurns [.serve] else e

/-- The loop ends once no dispatch is in flight. -/
def drain (e : Engine π σ) : Engine π σ :=
  if e.inFlight.isEmpty then
    { e with scheduler := e.scheduler.ended, serving := .absent }.conclude e.servesSecond (.ok ())
  else { e with serving := .draining }

/-- Takes identities from the ready queue while there are workers, at most as many as the fuel
says. -/
def serve : Nat → Engine π σ → Engine π σ
  | 0, e => e
  | fuel + 1, e =>
    if e.scheduler.stopRequested then e.drain
    else if e.freeWorkers = 0 then { e with serving := .waiting false }
    else
      match e.scheduler.ready with
      | [] => { e with serving := .waiting true }
      | id :: rest =>
        match ({ e.scheduler with ready := rest }).begin? id with
        | none => serve fuel { e with scheduler.ready := rest }
        | some ((request, retry), scheduler) =>
          serve fuel { e with
            scheduler
            inFlight := e.inFlight.insert id none
            turns := e.turns ++ [.start request retry] }

/-- One turn of the loop and of what is done along with it. -/
def serveAndAttend (host : Host π σ) (e : Engine π σ) : Engine π σ :=
  let e := match e.serving with
    | .absent => e
    | .draining => e.drain
    | .waiting _ => e.serve (e.scheduler.ready.length + 1)
  let (scheduler, world) := host.attend e.scheduler e.world
  { e with scheduler, world }

/-- Notes how a dispatch stands after its turn. -/
def settleDispatch (host : Host π σ) (e : Engine π σ) (id : ResourceId) :
    Standing π (Option DispatchSummary) → Engine π σ
  | .going process =>
    let isNew := fun due => !e.alarms.any fun a =>
      a.1 == due && match a.2 with
        | .resume id' => id' = id
        | _ => false
    let alarms := ((host.dues process).filter isNew).map fun due => (due, .resume id)
    { e with
      inFlight := e.inFlight.insert id (some process)
      alarms := e.alarms ++ alarms }
  | .over (some summary) =>
    { e with
      inFlight := e.inFlight.erase id
      scheduler := e.scheduler.finished id summary }
  | .over none =>
    { e with
      inFlight := e.inFlight.erase id
      scheduler := e.scheduler.crashed.finished id (.failed (.dispatchPanicked id)) }

/-- The first turn of a call of the loop. -/
def begin (host : Host π σ) (second : Bool) (e : Engine π σ) : Engine π σ :=
  match e.scheduler.run with
  | .error error => e.conclude second (.error error)
  | .ok scheduler =>
    serveAndAttend host { e with scheduler, serving := .waiting false, servesSecond := second }

def take (host : Host π σ) (e : Engine π σ) : Turn → Engine π σ
  | .run second =>
    match host.beforeRun e.scheduler e.world with
    | (some outcome, scheduler, world) => { e with scheduler, world }.conclude second outcome
    | (none, scheduler, world) => begin host second { e with scheduler, world }
  | .serve => e.serveAndAttend host
  | .start request retry =>
    let (standing, world) := host.start e.now request retry e.world
    ({ e with world }).settleDispatch host request.id standing
  | .resume id =>
    match e.inFlight.get? id with
    | some (some process) =>
      let (standing, world) := host.resume e.now process e.world
      ({ e with world }).settleDispatch host id standing
    | _ => e
  | .arm t =>
    let due := e.now + t.delay.millisUp
    if due ≤ e.now then { e with scheduler := e.scheduler.timerFired t }
    else { e with alarms := e.alarms ++ [(due, .fire t)] }
  | .fire t => { e with scheduler := e.scheduler.timerFired t }

/-- Gives turns until nothing can go on, at most as many as the fuel says. -/
def settle (host : Host π σ) : Nat → Engine π σ → Engine π σ
  | 0, e => e
  | fuel + 1, e =>
    match (e.refresh host).turns with
    | [] => e.refresh host
    | t :: rest => settle host fuel ({ e.refresh host with turns := rest }.take host t)

/-- More turns than anything takes at one time. -/
def turnLimit : Nat := 1000000

def nextDue (e : Engine π σ) : Option Nat := (e.alarms.map (·.1)).min?

/-- Moves the clock and gives a turn to everything that is due. -/
def ring (e : Engine π σ) (time : Nat) : Engine π σ :=
  { e with
    now := time
    alarms := e.alarms.filter fun a => time < a.1
    turns := e.turns ++ (e.alarms.filter fun a => a.1 ≤ time).map (·.2) }

/-- Lets the clock run on to a time; it stops at each time at which something is due. -/
def runUntil (host : Host π σ) (target : Nat) : Nat → Engine π σ → Engine π σ
  | 0, e => { e with now := max e.now target }
  | fuel + 1, e =>
    match e.nextDue with
    | some due =>
      if due ≤ target then
        runUntil host target fuel ((e.ring (max due e.now)).settle host turnLimit)
      else { e with now := max e.now target }
    | none => { e with now := max e.now target }

/-- Lets so many milliseconds pass, after everything that can go on now. -/
def advance (host : Host π σ) (millis : Nat) (e : Engine π σ) : Engine π σ :=
  (e.settle host turnLimit).runUntil host (e.now + millis) (millis + 1)

end Engine
end Reconciliation
