import Reconciliation.Number.Shortest
import Reconciliation.Settings.Basic

/-!
How failed dispatches are repeated: their classes, and exponential backoff with a bound on the
number of attempts.

A conflict is repeated at once and costs no attempt, a transient failure is repeated after a
delay, a terminal one is not repeated. The delay before attempt `n` is the initial interval times
the multiplier to the power `n - 1`, computed in floating point, rounded to the nearest nanosecond
and kept below a cap.
-/
namespace Reconciliation

/-- What a failure means for the next dispatch. -/
inductive FailureClass where
  | conflict
  | transient
  | terminal
  deriving DecidableEq

namespace FailureClass

def ofError (e : Error) : FailureClass :=
  if e.isConflict then .conflict else if e.isTerminal then .terminal else .transient

def name : FailureClass → String
  | conflict => "Conflict"
  | transient => "Transient"
  | terminal => "Terminal"

end FailureClass

/-- The latest failure of an identity. A terminal record has no repetition to come. -/
structure FailureRecord where
  message : String
  failureClass : FailureClass
  attempts : UInt32
  terminal : Bool
  deriving DecidableEq

/-- `a ^ b` by repeated squaring, from the lowest bit of the exponent up. -/
def floatPower (a : Float) (b : Nat) : Float := go b.log2 1.0 a b
where
  go : Nat → Float → Float → Nat → Float
    | 0, r, a, b => if b % 2 = 1 then r * a else r
    | fuel + 1, r, a, b =>
      let r := if b % 2 = 1 then r * a else r
      if b / 2 = 0 then r else go fuel r (a * a) (b / 2)

/-- The span nearest to so many seconds, a half going to the even nanosecond; `none` where the
seconds are negative, not finite, or do not fit into 64 bits. -/
def Span.ofSeconds? (x : Float) : Option Span :=
  match FloatParts.ofFloat x with
  | .finite negative significand exponent =>
    if negative && significand ≠ 0 then none
    else
      let r := Decimal.Ratio.ofDyadic (significand * Span.nanosPerSecond) exponent
      let quotient := r.num / r.den
      let twice := 2 * (r.num % r.den)
      let nanos :=
        if twice < r.den || (twice = r.den && quotient % 2 = 0) then quotient else quotient + 1
      if nanos < Nat.pow 2 64 * Span.nanosPerSecond then some ⟨nanos⟩ else none
  | _ => none

/-- What a dispatch is told about the attempts so far. -/
structure RetryInfo where
  attemptCount : UInt32
  lastAttempt : Bool
  deriving DecidableEq

/-- How often and with which delays a failing dispatch is repeated. -/
structure RetryPolicy where
  maxAttempts : Option UInt32 := some 5
  initialInterval : Span := Span.ofSeconds 2
  multiplier : Float := 1.5
  maxInterval : Option Span := none
  deriving DecidableEq

namespace RetryPolicy

/-- The cap of a policy that states none. -/
def ceiling : Span := Span.ofSeconds (24 * 60 * 60)

def never : RetryPolicy := { maxAttempts := some 0 }

def quick : RetryPolicy where
  maxAttempts := some 3
  initialInterval := Span.ofMillis 10
  multiplier := 2.0
  maxInterval := some (Span.ofMillis 100)

/-- Disabled retries have no policy. -/
def ofSettings? (s : RetrySettings) : Option RetryPolicy :=
  if s.enabled then
    some {
      maxAttempts := s.maxAttempts
      initialInterval := Span.ofMillis s.initialIntervalMs.toNat
      multiplier := s.multiplier
      maxInterval := s.maxIntervalMs.map fun n => Span.ofMillis n.toNat }
  else none

def cap (p : RetryPolicy) : Span := p.maxInterval.getD ceiling

def maxExponent : Nat := Nat.pow 2 31 - 1

/-- The delay before an attempt, counted from one. -/
def delayFor (p : RetryPolicy) (attempt : UInt32) : Span :=
  let exponent := min (attempt.toNat - 1) maxExponent
  match Span.ofSeconds? (p.initialInterval.toSeconds * floatPower p.multiplier exponent) with
  | some delay => min delay p.cap
  | none => p.cap

end RetryPolicy

/-- The progress of one identity through a policy. -/
structure RetryProgress where
  policy : RetryPolicy
  attempts : UInt32 := 0
  deriving DecidableEq

namespace RetryProgress

def isExhausted (e : RetryProgress) : Bool :=
  match e.policy.maxAttempts with
  | some n => n ≤ e.attempts
  | none => false

def info (e : RetryProgress) : RetryInfo := ⟨e.attempts, e.isExhausted⟩

/-- The count stays at its greatest value. -/
def counted (e : RetryProgress) : RetryProgress :=
  { e with
    attempts := if e.attempts = 0xFFFFFFFF then e.attempts else e.attempts + 1 }

/-- The delay before the next attempt, unless the attempts are used up. -/
def nextDelay (e : RetryProgress) : Option Span × RetryProgress :=
  if e.isExhausted then (none, e)
  else (some (e.policy.delayFor e.counted.attempts), e.counted)

end RetryProgress
end Reconciliation
