/-!
Requests to stop the engine. The first signal wins.
-/
namespace Reconciliation

/-- Why an engine is to stop. -/
inductive ShutdownSignal where
  | terminate
  | interrupt
  | programmatic
  | feedClosed
  deriving DecidableEq

def ShutdownSignal.text : ShutdownSignal → String
  | terminate => "SIGTERM"
  | interrupt => "SIGINT"
  | programmatic => "PROGRAMMATIC"
  | feedClosed => "FEED_CLOSED"

/-- The first signal to stop, once there was one. -/
structure Shutdown where
  signal : Option ShutdownSignal := none
  deriving DecidableEq

namespace Shutdown

def isTriggered (s : Shutdown) : Bool := s.signal.isSome

/-- Records a signal; the answer tells whether it is the first one. -/
def trigger (s : Shutdown) (signal : ShutdownSignal) : Bool × Shutdown :=
  match s.signal with
  | some _ => (false, s)
  | none => (true, ⟨some signal⟩)

end Shutdown
end Reconciliation
