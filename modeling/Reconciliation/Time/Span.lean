import Reconciliation.Json.Basic

/-!
Spans of time to the nanosecond.
-/
namespace Reconciliation

/-- A non-negative span in nanoseconds; whole seconds are meant to fit into 64 bits. -/
structure Span where
  nanos : Nat
  deriving DecidableEq, Inhabited

namespace Span

def zero : Span := ⟨0⟩

def nanosPerSecond : Nat := 1000000000

def nanosPerMilli : Nat := 1000000

def ofMillis (n : Nat) : Span := ⟨n * nanosPerMilli⟩

def ofSeconds (n : Nat) : Span := ⟨n * nanosPerSecond⟩

def seconds (s : Span) : Nat := s.nanos / nanosPerSecond

def subsecond (s : Span) : Nat := s.nanos % nanosPerSecond

def isZero (s : Span) : Bool := s.nanos == 0

/-- Milliseconds, counted up to the next whole one. -/
def millisUp (s : Span) : Nat := (s.nanos + nanosPerMilli - 1) / nanosPerMilli

instance : Min Span := ⟨fun a b => ⟨min a.nanos b.nanos⟩⟩

instance : LE Span := ⟨fun a b => a.nanos ≤ b.nanos⟩

instance : LT Span := ⟨fun a b => a.nanos < b.nanos⟩

def toJson (s : Span) : Json :=
  .object [("secs", .nat s.seconds), ("nanos", .nat s.subsecond)]

/-- The span in seconds as a float: the whole seconds plus the rest. -/
def toSeconds (s : Span) : Float :=
  s.seconds.toUInt64.toFloat + s.subsecond.toUInt64.toFloat / 1e9

end Span
end Reconciliation
