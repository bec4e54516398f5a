import Reconciliation.Toml.Quoted
import Reconciliation.Toml.Scalar

/-!
Reading TOML documents.

A document is a sequence of lines, each blank, a comment, a header, or a key with its value.
Arrays and inline tables may span lines and nest at most eighty deep.
-/
namespace Reconciliation.Toml

def isSpace (c : Char) : Bool := c = ' ' || c = '\t'

def skipSpaces (cs : List Char) : List Char := cs.dropWhile isSpace

def isBareKeyChar (c : Char) : Bool := c.isAlphanum || c = '_' || c = '-'

/-- Skips a comment up to the end of its line. -/
def comment? : List Char → Option (List Char)
  | '#' :: rest =>
    let rest := dropText rest
    match rest with
    | [] => some []
    | _ => (lineBreak? rest).map fun _ => rest
  | cs => some cs
where
  dropText (cs : List Char) : List Char := cs.dropWhile (!isControl ·)

/-- Skips blanks, comments and line breaks. -/
def skipLines? : Nat → List Char → Option (List Char)
  | 0, _ => none
  | fuel + 1, cs => do
    let cs ← comment? (skipSpaces cs)
    match lineBreak? cs with
    | some rest => skipLines? fuel rest
    | none => some cs

def skipAll? (cs : List Char) : Option (List Char) := skipLines? (cs.length + 1) cs

def simpleKey? (cs : List Char) : Option (String × List Char) :=
  match cs with
  | c :: _ =>
    if isBareKeyChar c then
      some (String.ofList (cs.takeWhile isBareKeyChar), cs.dropWhile isBareKeyChar)
    else oneLine? cs
  | [] => none

/-- A dotted key: the keys before the last one, the last one, and the rest of the text. -/
def key? : Nat → List String → List Char → Option (List String × String × List Char)
  | 0, _, _ => none
  | fuel + 1, path, cs => do
    let (k, rest) ← simpleKey? (skipSpaces cs)
    match skipSpaces rest with
    | '.' :: rest => key? fuel (path ++ [k]) rest
    | rest => some (path, k, rest)

def isScalarChar (c : Char) : Bool :=
  !(isSpace c || isControl c || c = ',' || c = ']' || c = '\x7d' || c = '#' || c = '=' ||
    c = '[' || c = '\x7b' || c = '"' || c = '\'')

/-- The run of characters of a scalar; one blank may separate a date from a time. -/
def scalarRun (cs : List Char) : List Char × List Char :=
  let run := cs.takeWhile isScalarChar
  let rest := cs.drop run.length
  match date? run, rest with
  | some (_, []), ' ' :: d :: _ =>
    if d.isDigit then
      let more := (rest.drop 1).takeWhile isScalarChar
      (run ++ ' ' :: more, rest.drop (1 + more.length))
    else (run, rest)
  | _, _ => (run, rest)

mutual

/-- A value; `depth` bounds how many more levels may open. -/
def value? : Nat → Nat → List Char → Option (Value × List Char)
  | 0, _, _ => none
  | fuel + 1, depth, cs =>
    match cs with
    | '[' :: rest => if depth = 0 then none else items? fuel (depth - 1) [] rest
    | '\x7b' :: rest =>
      if depth = 0 then none else fields? fuel (depth - 1) ⟨.inline, []⟩ rest
    | c :: _ =>
      if c = '"' || c = '\'' then (string? cs).map fun r => (.str r.1, r.2)
      else
        let (run, rest) := scalarRun cs
        (scalar? run).map (·, rest)
    | [] => none

/-- The items of an array up to its closing bracket. -/
def items? : Nat → Nat → List Value → List Char → Option (Value × List Char)
  | 0, _, _, _ => none
  | fuel + 1, depth, acc, cs => do
    let cs ← skipAll? cs
    match cs with
    | ']' :: rest => some (.array false acc.reverse, rest)
    | cs =>
      let (v, rest) ← value? fuel depth cs
      let rest ← skipAll? rest
      match rest with
      | ',' :: rest => items? fuel depth (v :: acc) rest
      | ']' :: rest => some (.array false (v :: acc).reverse, rest)
      | _ => none

/-- The fields of an inline table up to its closing brace. -/
def fields? : Nat → Nat → Table → List Char → Option (Value × List Char)
  | 0, _, _, _ => none
  | fuel + 1, depth, acc, cs => do
    let cs ← skipAll? cs
    match cs with
    | '\x7d' :: rest => some (acc.toValue, rest)
    | cs =>
      let (path, k, rest) ← key? (cs.length + 1) [] cs
      match rest with
      | '=' :: rest =>
        let (v, rest) ← value? fuel depth (skipSpaces rest)
        let acc ← acc.define path k v
        let rest ← skipAll? rest
        match rest with
        | ',' :: rest => fields? fuel depth acc rest
        | '\x7d' :: rest => some (acc.toValue, rest)
        | _ => none
      | _ => none

end

/-- The header whose table the following keys fill. -/
structure Header where
  path : List String
  key : String
  ofTables : Bool

/-- A document while it is read. -/
structure Partial where
  root : Table
  header : Option Header
  current : Table

namespace Partial

def start : Partial := ⟨⟨.header, []⟩, none, ⟨.header, []⟩⟩

/-- The document with the current table in its place. -/
def close (p : Partial) : Option Table :=
  match p.header with
  | none => some p.current
  | some h =>
    if h.ofTables then p.root.append h.path h.key p.current
    else p.root.adopt h.path h.key p.current

def enter (p : Partial) (h : Header) : Option Partial := do
  let root ← p.close
  if h.ofTables then some ⟨root, some h, ⟨.header, []⟩⟩
  else
    let (root, current) ← root.takeOver h.path h.key
    some ⟨root, some h, current⟩

end Partial

def header? (cs : List Char) : Option (Header × List Char) := do
  let (ofTables, cs) := match cs with
    | '[' :: '[' :: rest => (true, rest)
    | _ :: rest => (false, rest)
    | [] => (false, [])
  let (path, k, rest) ← key? (cs.length + 1) [] cs
  match ofTables, rest with
  | true, ']' :: ']' :: rest => some (⟨path, k, true⟩, rest)
  | false, ']' :: rest => some (⟨path, k, false⟩, rest)
  | _, _ => none

/-- Nothing but a comment may follow on the same line. -/
def endOfLine? (cs : List Char) : Option (List Char) := do
  let cs ← comment? (skipSpaces cs)
  match cs with
  | [] => some []
  | cs => lineBreak? cs

def expressions? : Nat → Partial → List Char → Option Partial
  | 0, _, _ => none
  | fuel + 1, p, cs => do
    let cs ← skipAll? cs
    match cs with
    | [] => some p
    | '[' :: _ =>
      let (h, rest) ← header? cs
      expressions? fuel (← p.enter h) (← endOfLine? rest)
    | cs =>
      let (path, k, rest) ← key? (cs.length + 1) [] cs
      match rest with
      | '=' :: rest =>
        let rest := skipSpaces rest
        let (v, rest) ← value? (2 * rest.length + 2) 80 rest
        let current ← p.current.define path k v
        expressions? fuel { p with current } (← endOfLine? rest)
      | _ => none

def dropMark : List Char → List Char
  | '\uFEFF' :: rest => rest
  | cs => cs

/-- The table that a document states. -/
def parse? (text : String) : Option Table := do
  let cs := dropMark text.toList
  let p ← expressions? (cs.length + 1) .start cs
  p.close

end Reconciliation.Toml
