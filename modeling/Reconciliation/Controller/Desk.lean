import Reconciliation.Cluster.Store
import Reconciliation.Controller.Basic
import Reconciliation.Dispatch.Process

/-!
A controller at work on a clock.

Along with the loop over the ready queue, the controller hands the events of its feed on until
a shutdown is asked for or the feed ends; then the loop is asked to stop.
-/
namespace Reconciliation

/-- Where a controller takes its events from: nowhere, a feed that has ended, or the changes of
the cluster from a position on. -/
inductive EventFeed where
  | silent
  | ended
  | watch (position : Nat)
  deriving DecidableEq

namespace EventFeed

def isWatch : EventFeed → Bool
  | watch _ => true
  | _ => false

/-- A watch starts at a position; other feeds have none. -/
def startingAt (position : Nat) : EventFeed → EventFeed
  | watch _ => watch position
  | feed => feed

end EventFeed

/-- A controller with its feed in a world that holds a cluster. -/
structure Desk (σ : Type) where
  controller : Controller
  feed : EventFeed := .silent
  /-- Events are being handed on. -/
  pumping : Bool := false
  world : σ

namespace Desk
variable {I : Interface} {σ : Type}

/-- A controller that ran before, or was shut down before, does not run. -/
def beforeRun (s : Scheduler) (d : Desk σ) : Option (Except Error Unit) × Scheduler × Desk σ :=
  if d.controller.started then (some (.error .shuttingDown), s, d)
  else
    let d := { d with controller.started := true }
    if d.controller.shutdown.isTriggered then (some (.ok ()), s.stop, d)
    else (none, s, { d with pumping := true })

def shutDown (d : Desk σ) (signal : ShutdownSignal) : Bool × Desk σ :=
  let (first, shutdown) := d.controller.shutdown.trigger signal
  (first, { d with controller.shutdown := shutdown })

def handle (clusterOf : σ → Cluster) (events : List ChangeEvent) (s : Scheduler) (d : Desk σ) :
    Scheduler × Desk σ :=
  let (controller, s) := d.controller.handleEvents (clusterOf d.world) events s
  (s, { d with controller })

/-- Hands the unread changes on. -/
def attend (clusterOf : σ → Cluster) (s : Scheduler) (d : Desk σ) : Scheduler × Desk σ :=
  if !d.pumping then (s, d)
  else if d.controller.shutdown.isTriggered then (s.stop, { d with pumping := false })
  else
    match d.feed with
    | .silent => (s, d)
    | .ended => (s.stop, { (d.shutDown .feedClosed).2 with pumping := false })
    | .watch position =>
      let cluster := clusterOf d.world
      let (s, d) := d.handle clusterOf (cluster.changesSince position) s
      (s, { d with feed := .watch cluster.log.length })

def wantsAttention (clusterOf : σ → Cluster) (d : Desk σ) : Bool :=
  d.pumping && (d.controller.shutdown.isTriggered ||
    match d.feed with
    | .watch position => position < (clusterOf d.world).log.length
    | _ => false)

def host (dispatcher : Dispatcher I) (h : Handlers I σ) (clusterOf : σ → Cluster) :
    Host (DispatchProcess I) (Desk σ) where
  start := fun now request retry d =>
    let (standing, world) := (dispatcher.host h).start now request retry d.world
    (standing, { d with world })
  resume := fun now process d =>
    let (standing, world) := (dispatcher.host h).resume now process d.world
    (standing, { d with world })
  dues := (dispatcher.host h).dues
  beforeRun := beforeRun
  attend := attend clusterOf
  wantsAttention := wantsAttention clusterOf

end Desk
end Reconciliation
