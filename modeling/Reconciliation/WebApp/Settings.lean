import Reconciliation.Settings.Environment

/-!
Settings of the sample controller for web applications.

The file may leave out the kind, the name and the finalizer; it may not name another kind. The
environment overrides the file last, so it can still switch the finalizer off.
-/
namespace Reconciliation.WebApp

def kind : String := "WebApp"

def finalizer : String := "webapps.steward.io/cleanup"

def controllerName : String := "webapp-controller"

/-- Fills in what the file left out. -/
def withDefaults (s : Settings) : Except Error Settings :=
  let s := if s.kind = "" then { s with kind := kind } else s
  if s.kind ≠ kind then
    .error (.invalidConfig ("sample controller only manages " ++ kind ++ ", not " ++ s.kind))
  else
    .ok {
      s with
      name := if s.name = ({} : Settings).name then controllerName else s.name
      finalizer := s.finalizer.or (some finalizer) }

/-- Settings from a file, if one is given, and the environment. -/
def loadSettings (file : Option (String × Settings.File)) (env : Settings.Environment) :
    Except Error Settings := do
  let s ← match file with
    | some (path, content) => Settings.parseFile path content
    | none => .ok {}
  (← withDefaults s).applyEnvironment env

end Reconciliation.WebApp
