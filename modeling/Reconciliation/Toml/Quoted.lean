import Reconciliation.Json.Reader

/-!
Quoted TOML text: basic and literal strings, on one line or on several.

Control characters other than a tab are refused. A string of several lines starts after a line
break that follows its opening quotes, and may end with up to two quotes of its own.
-/
namespace Reconciliation.Toml

/-- Control characters that no string and no comment may hold. -/
def isControl (c : Char) : Bool :=
  (c.toNat < 32 && c ≠ '\t') || c.toNat = 127

def lineBreak? : List Char → Option (List Char)
  | '\n' :: rest => some rest
  | '\r' :: '\n' :: rest => some rest
  | _ => none

def hexNumber? (count : Nat) (cs : List Char) : Option (Char × List Char) := do
  let ds := cs.take count
  if ds.length < count then none
  let values ← ds.mapM Json.hexValue?
  let n := values.foldl (fun n d => n * 16 + d) 0
  if n < 0xD800 ∨ (0xDFFF < n ∧ n < 0x110000) then some (Char.ofNat n, cs.drop count) else none

/-- The character that an escape stands for; the backslash is already read. -/
def escape? : List Char → Option (Char × List Char)
  | 'b' :: rest => some (Char.ofNat 8, rest)
  | 't' :: rest => some ('\t', rest)
  | 'n' :: rest => some ('\n', rest)
  | 'f' :: rest => some (Char.ofNat 12, rest)
  | 'r' :: rest => some ('\r', rest)
  | 'e' :: rest => some (Char.ofNat 27, rest)
  | '"' :: rest => some ('"', rest)
  | '\\' :: rest => some ('\\', rest)
  | 'x' :: rest => hexNumber? 2 rest
  | 'u' :: rest => hexNumber? 4 rest
  | 'U' :: rest => hexNumber? 8 rest
  | _ => none

/-- A basic string on one line; the characters so far are in reverse order. -/
def basic? : Nat → List Char → List Char → Option (String × List Char)
  | 0, _, _ => none
  | fuel + 1, acc, cs =>
    match cs with
    | [] => none
    | '"' :: rest => some (String.ofList acc.reverse, rest)
    | '\\' :: rest => do
      let (c, rest) ← escape? rest
      basic? fuel (c :: acc) rest
    | c :: rest => if isControl c then none else basic? fuel (c :: acc) rest

def literal? (cs : List Char) : Option (String × List Char) :=
  let text := cs.takeWhile (· ≠ '\'')
  match cs.drop text.length with
  | _ :: rest => if text.any isControl then none else some (String.ofList text, rest)
  | [] => none

/-- The quotes at the end of a string of several lines: up to two are text, three close it. -/
def closing? (quote : Char) (cs : List Char) : Option (Nat × List Char) :=
  let run := (cs.takeWhile (· = quote)).length
  if run < 3 then none else some (min run 5 - 3, cs.drop (min run 5))

/-- After a backslash: skips blanks that end the line, and all blanks and lines after it. -/
def continuation? (cs : List Char) : Option (List Char) :=
  match lineBreak? (cs.dropWhile fun c => c = ' ' || c = '\t') with
  | some _ => some (skip (cs.length + 1) cs)
  | none => none
where
  skip : Nat → List Char → List Char
    | 0, cs => cs
    | fuel + 1, cs =>
      let cs := cs.dropWhile fun c => c = ' ' || c = '\t'
      match lineBreak? cs with
      | some rest => skip fuel rest
      | none => cs

/-- A string of several lines, with escapes if `escapes` says so. -/
def lines? (quote : Char) (escapes : Bool) :
    Nat → List Char → List Char → Option (String × List Char)
  | 0, _, _ => none
  | fuel + 1, acc, cs =>
    match closing? quote cs with
    | some (own, rest) => some (String.ofList (acc.reverse ++ List.replicate own quote), rest)
    | none =>
      match lineBreak? cs with
      | some rest => lines? quote escapes fuel ('\n' :: acc) rest
      | none =>
        match cs with
        | [] => none
        | c :: rest =>
          if escapes && c = '\\' then
            match continuation? rest with
            | some rest => lines? quote escapes fuel acc rest
            | none => do
              let (d, rest) ← escape? rest
              lines? quote escapes fuel (d :: acc) rest
          else if isControl c then none
          else lines? quote escapes fuel (c :: acc) rest

def afterFirstBreak (cs : List Char) : List Char := (lineBreak? cs).getD cs

/-- A string on one line, as a key may be. -/
def oneLine? : List Char → Option (String × List Char)
  | '"' :: rest => basic? (rest.length + 1) [] rest
  | '\'' :: rest => literal? rest
  | _ => none

/-- Any string. -/
def string? : List Char → Option (String × List Char)
  | '"' :: '"' :: '"' :: rest => lines? '"' true (rest.length + 1) [] (afterFirstBreak rest)
  | '\'' :: '\'' :: '\'' :: rest => lines? '\'' false (rest.length + 1) [] (afterFirstBreak rest)
  | cs => oneLine? cs

end Reconciliation.Toml
