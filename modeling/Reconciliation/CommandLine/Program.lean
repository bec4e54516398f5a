import Reconciliation.CommandLine.Arguments
import Reconciliation.Settings.Document

/-!
The program behind the command line: what it prints and how it exits.

A wrong usage exits with 2, anything else that goes wrong with 1; neither prints a result.
-/
namespace Reconciliation.CommandLine

def programName : String := "steward"

def versionLine : String := programName ++ " 0.1.0\n"

def usage : String :=
  "Usage: " ++ programName ++ " [--config <CONFIG>] <demo|config>\n"

/-- The exit code, the result, and a complaint. -/
structure Output where
  code : UInt32
  stdout : String := ""
  stderr : String := ""

def failure (what : String) (e : Error) : Output :=
  { code := 1, stderr := "Error: " ++ what ++ "\n\nCaused by:\n    " ++ e.message ++ "\n" }

def runCommand (settings : Settings) : Command → Output
  | .demo options =>
    match WebApp.runDemo settings options none with
    | .ok report => { code := 0, stdout := report.toJson.pretty ++ "\n" }
    | .error e => failure "Demo failed" e
  | .config =>
    match settings.toToml? with
    | some text => { code := 0, stdout := text ++ "\n" }
    | none => { code := 1, stderr := "Error: Failed to render settings\n" }

/-- Runs a request with the files and the variables that there are. -/
def perform (fileAt : String → Settings.File) (env : Settings.Environment) : Request → Output
  | .version => { code := 0, stdout := versionLine }
  | .help => { code := 0, stdout := usage }
  | .perform settingsFile command =>
    match WebApp.loadSettings (settingsFile.map fun path => (path, fileAt path)) env with
    | .ok settings => runCommand settings command
    | .error e => failure "Failed to load settings" e

def run (fileAt : String → Settings.File) (env : Settings.Environment) (args : List String) :
    Output :=
  match parse? args with
  | some request => perform fileAt env request
  | none => { code := 2, stderr := usage }

end Reconciliation.CommandLine
