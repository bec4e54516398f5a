import Reconciliation.WebApp.Demo

/-!
Reading the arguments of a command line.

A command may be preceded and followed by the option for the settings file; each option stands
at most once on either side of the command, and of two settings files the one after the command
counts. A value is the next argument, which must not look like an option, or follows an equals
sign.
-/
namespace Reconciliation.CommandLine

/-- What the program is asked to do. -/
inductive Command where
  | demo (options : WebApp.DemoOptions)
  | config
  deriving Inhabited

/-- What a command line asks for. -/
inductive Request where
  | perform (settingsFile : Option String) (command : Command)
  | version
  | help

/-- The options seen so far on one side of the command. -/
structure Options where
  config : Option String := none
  apps : Option Nat := none
  replicas : Option Nat := none
  settle : Option Nat := none

/-- The options that take a value. -/
inductive OptionName where
  | config
  | apps
  | replicas
  | settle
  deriving DecidableEq

def longName? : String → Option OptionName
  | "--config" => some .config
  | "--apps" => some .apps
  | "--replicas" => some .replicas
  | "--settle-ms" => some .settle
  | _ => none

/-- What an argument says. -/
inductive Token where
  | help
  | version
  /-- An option, and its value if that is part of the same argument. -/
  | option (name : OptionName) (value : Option String)
  | unknown
  | separator
  | word (s : String)

/-- The part of an argument up to an equals sign, and the part after it. -/
def splitValue (s : String) : String × Option String :=
  let cs := s.toList
  match cs.dropWhile (· ≠ '=') with
  | _ :: value => (String.ofList (cs.takeWhile (· ≠ '=')), some (String.ofList value))
  | [] => (s, none)

def longToken (s : String) : Token :=
  match splitValue s with
  | ("--help", none) => .help
  | ("--version", none) => .version
  | (name, value) =>
    match longName? name with
    | some o => .option o value
    | none => .unknown

def token (s : String) : Token :=
  match s.toList with
  | ['-', '-'] => .separator
  | '-' :: '-' :: _ => longToken s
  | ['-'] => .word s
  | '-' :: 'h' :: _ => .help
  | '-' :: 'V' :: _ => .version
  | ['-', 'c'] => .option .config none
  | '-' :: 'c' :: '=' :: value => .option .config (some (String.ofList value))
  | '-' :: 'c' :: value => .option .config (some (String.ofList value))
  | '-' :: _ => .unknown
  | _ => .word s

def number? (s : String) : Option Nat := (Settings.decimalWord? s).map (·.toNat)

def Options.set (o : Options) (name : OptionName) (value : String) : Option Options :=
  match name with
  | .config => if o.config.isSome || value.isEmpty then none else some { o with config := value }
  | .apps => if o.apps.isSome then none else (number? value).map fun n => { o with apps := n }
  | .replicas =>
    if o.replicas.isSome then none else (number? value).map fun n => { o with replicas := n }
  | .settle =>
    if o.settle.isSome then none else (number? value).map fun n => { o with settle := n }

/-- What stands on one side of the command: nothing but options, or a request for information,
or options up to a word. -/
inductive Side where
  | finished (o : Options)
  | request (r : Request)
  | command (o : Options) (word : String) (rest : List String)

/-- An argument that may be the value of an option. -/
def isValue (s : String) : Bool :=
  match token s with
  | .word _ => true
  | _ => false

/-- Reads options of the allowed names; `none` where the usage is wrong. -/
def readSide (allowed : List OptionName) (hasVersion : Bool) :
    List String → Options → Option Side
  | [], o => some (.finished o)
  | arg :: rest, o =>
    match token arg with
    | .help => some (.request .help)
    | .version => if hasVersion then some (.request .version) else none
    | .unknown => none
    | .separator => if rest.isEmpty then some (.finished o) else none
    | .word w => some (.command o w rest)
    | .option name value =>
      if !allowed.contains name then none
      else
        match value, rest with
        | some v, rest =>
          match o.set name v with
          | some o => readSide allowed hasVersion rest o
          | none => none
        | none, v :: rest =>
          if isValue v then
            match o.set name v with
            | some o => readSide allowed hasVersion rest o
            | none => none
          else none
        | none, [] => none
termination_by args => args.length

/-- Options after the command, where a further word is one too many. -/
def readCommand (before : Options) (allowed : List OptionName) (command : Options → Command)
    (rest : List String) : Option Request :=
  match readSide allowed false rest {} with
  | some (.finished after) => some (.perform (after.config.or before.config) (command after))
  | some (.request r) => some r
  | _ => none

def demoOptions (o : Options) : WebApp.DemoOptions :=
  let d : WebApp.DemoOptions := {}
  {
    apps := o.apps.getD d.apps
    replicas := o.replicas.getD d.replicas
    settle := o.settle.getD d.settle }

/-- The request of a command line; `none` where the usage is wrong. -/
def parse? (args : List String) : Option Request :=
  match readSide [.config] true args {} with
  | some (.request r) => some r
  | some (.command before "demo" rest) =>
    readCommand before [.config, .apps, .replicas, .settle] (fun o => .demo (demoOptions o)) rest
  | some (.command before "config" rest) => readCommand before [.config] (fun _ => .config) rest
  | some (.command _ "help" []) => some .help
  | some (.command _ "help" [word]) =>
    if word ∈ ["demo", "config", "help"] then some .help else none
  | _ => none

/-- The settings file that a command line asks for. -/
def settingsFile? (args : List String) : Option String :=
  match parse? args with
  | some (.perform file _) => file
  | _ => none

end Reconciliation.CommandLine
