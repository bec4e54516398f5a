import Reconciliation.Event
import Reconciliation.Retry.Policy

/-!
What a scheduler knows about one identity.

An identity has an event that no dispatch has consumed, or none; or its object is gone, and
the state goes with the dispatch in flight; or its finalizer was removed, and triggers of the
terminating object are ignored.
-/
namespace Reconciliation

/-- Where an identity stands with its events. -/
inductive EventState where
  | quiet
  | pending
  | deleted
  | released
  deriving DecidableEq

/-- What a scheduler knows about one identity. -/
structure IdentityState where
  inFlight : Bool := false
  /-- The identity stands in the ready queue. -/
  queued : Bool := false
  event : EventState := .quiet
  /-- The distinct causes for the next dispatch, in the order of their arrival. -/
  causes : List TriggerCause := []
  retry : Option RetryProgress := none
  /-- The token of the armed timer. -/
  timer : Option Nat := none
  lastFailure : Option FailureRecord := none
  deriving DecidableEq

namespace IdentityState

def hasEvent (s : IdentityState) : Bool := s.event = .pending

def isDeleted (s : IdentityState) : Bool := s.event = .deleted

/-- Triggers are recorded, not ignored. -/
def acceptsEvents (s : IdentityState) : Bool :=
  s.event = .quiet || s.event = .pending

def addCause (causes : List TriggerCause) (cause : TriggerCause) : List TriggerCause :=
  if causes.contains cause then causes else causes ++ [cause]

/-- Records a trigger unless triggers are ignored. -/
def markEvent (s : IdentityState) (cause : TriggerCause) : IdentityState :=
  if s.acceptsEvents then
    { s with event := .pending, causes := addCause s.causes cause }
  else s

/-- A dispatch waits that can be handed to a worker right away. -/
def isDispatchable (s : IdentityState) : Bool :=
  s.hasEvent && !s.inFlight && !s.queued

/-- The state once a dispatch has taken the causes. -/
def begun (s : IdentityState) : IdentityState :=
  { s with
    queued := false
    inFlight := true
    event := if s.hasEvent then .quiet else s.event
    causes := [] }

def cancelTimer (s : IdentityState) : IdentityState := { s with timer := none }

end IdentityState
end Reconciliation
