import Reconciliation.CommandLine.Program

/-! The program: arguments, variables and a file in, text and an exit code out. -/
namespace Reconciliation.CommandLine

/-- What a path leads to. What cannot be read counts as missing. -/
def fileAt (path : String) : IO Settings.File := do
  try
    return .ofBytes (← IO.FS.readBinFile path)
  catch _ => return .missing

/-- The variables that settings depend on. -/
def environment : IO Settings.Environment := do
  let workers ← IO.getEnv "STEWARD_WORKERS"
  let finalizer ← IO.getEnv "STEWARD_FINALIZER"
  let namespaces ← IO.getEnv "STEWARD_NAMESPACES"
  return fun
    | "STEWARD_WORKERS" => workers
    | "STEWARD_FINALIZER" => finalizer
    | "STEWARD_NAMESPACES" => namespaces
    | _ => none

end Reconciliation.CommandLine

open Reconciliation

def main (args : List String) : IO UInt32 := do
  let file ← match CommandLine.settingsFile? args with
    | some path => CommandLine.fileAt path
    | none => pure .missing
  let output := CommandLine.run (fun _ => file) (← CommandLine.environment) args
  (← IO.getStdout).putStr output.stdout
  (← IO.getStderr).putStr output.stderr
  return output.code
