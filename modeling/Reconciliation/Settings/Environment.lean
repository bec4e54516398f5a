import Reconciliation.Settings.Document

/-!
Settings from the environment and from files.

A variable overrides the setting that a file or a default gave. Numbers are written in decimal,
with an optional plus sign and blanks around them; lists are separated by commas.
-/
namespace Reconciliation.Settings

/-- Variables by name. -/
abbrev Environment := String → Option String

/-- A decimal number of 64 bits, with an optional plus sign. -/
def decimalWord? (s : String) : Option UInt64 :=
  let ds := match s.toList with
    | '+' :: rest => rest
    | rest => rest
  if ds.isEmpty || !ds.all Char.isDigit then none
  else
    let n := Json.natOfDigits ds
    if n < Nat.pow 2 64 then some n.toUInt64 else none

def overrideWorkers (env : Environment) (s : Settings) : Except Error Settings :=
  match env "STEWARD_WORKERS" with
  | none => .ok s
  | some raw =>
    match decimalWord? (Text.trim raw) with
    | some workers => .ok { s with workers }
    | none => .error (.invalidConfig ("STEWARD_WORKERS='" ++ raw ++ "'"))

/-- An empty finalizer switches finalization off. -/
def overrideFinalizer (env : Environment) (s : Settings) : Settings :=
  match env "STEWARD_FINALIZER" with
  | none => s
  | some f => { s with finalizer := if f = "" then none else some f }

def overrideNamespaces (env : Environment) (s : Settings) : Settings :=
  match env "STEWARD_NAMESPACES" with
  | none => s
  | some raw => { s with namespaces := ((raw.splitOn ",").map Text.trim).filter (· ≠ "") }

def applyEnvironment (env : Environment) (s : Settings) : Except Error Settings := do
  let s ← overrideWorkers env s
  let s := overrideNamespaces env (overrideFinalizer env s)
  s.validate
  return s

/-- What a settings file holds: nothing at all, bytes that are no text, or a text. -/
inductive File where
  | missing
  | binary
  | text (raw : String)

def File.ofBytes (bytes : ByteArray) : File :=
  match String.fromUTF8? bytes with
  | some raw => .text raw
  | none => .binary

def File.read (path : String) : File → Except Error String
  | .missing => .error (.fileReadFailed path "No such file or directory (os error 2)")
  | .binary => .error (.fileReadFailed path "stream did not contain valid UTF-8")
  | .text raw => .ok raw

def parseFile (path : String) (file : File) : Except Error Settings := do
  parseToml (← file.read path)

def fromFile (path : String) (file : File) : Except Error Settings := do
  fromToml (← file.read path)

end Reconciliation.Settings
