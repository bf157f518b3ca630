import Wager.Config.Environment
import Wager.Defaults

/-!
# Variable files

Files of assignments `NAME=value`, one on a line.  Names may be quoted and exported, values may be
quoted, comments begin with a number sign, and a line that cannot be read is left out.  A value may
refer to other variables.
-/

namespace Wager.EnvFile

open Text

abbrev Binding := Text × Option Text

def isInnerBlank (c : Char) : Bool := isBlank c && c != '\r' && c != '\n'

def endsLine (c : Char) : Bool := c == '\r' || c == '\n'

def skipInner (t : Text) : Text := t.dropWhile isInnerBlank

def unixLines : Text → Text
  | '\r' :: '\n' :: rest => '\n' :: unixLines rest
  | '\r' :: rest => '\n' :: unixLines rest
  | c :: rest => c :: unixLines rest
  | [] => []

def afterLine (t : Text) : Text := (t.dropWhile (!endsLine ·)).drop 1

def skipExport (t : Text) : Text :=
  if "export".toList.isPrefixOf t then
    let rest := t.drop 6
    if rest.head?.any isInnerBlank then skipInner rest else t
  else t

/-- Splits the body of a quoted text from what follows the closing quote.  A quote behind a
backslash belongs to the body unless no other quote follows. -/
def spanQuoted? (mark : Char) : Text → Option (Text × Text)
  | [] => none
  | [c] => if c == mark then some ([], []) else none
  | c :: d :: rest =>
    if c == mark then some ([], d :: rest)
    else if c == '\\' && d == mark then
      match spanQuoted? mark rest with
      | some (body, tail) => some (c :: d :: body, tail)
      | none => some ([c], rest)
    else (spanQuoted? mark (d :: rest)).map fun (body, tail) => (c :: body, tail)

def escape? (mark c : Char) : Option Char :=
  if c == '\\' || c == '\'' then some c
  else if mark == '\'' then none
  else
    match c with
    | '"' => some '"'
    | 'a' => some '\x07'
    | 'b' => some '\x08'
    | 'f' => some '\x0c'
    | 'n' => some '\n'
    | 'r' => some '\r'
    | 't' => some '\t'
    | 'v' => some '\x0b'
    | _ => none

def unescape (mark : Char) : Text → Text
  | '\\' :: c :: rest =>
    match escape? mark c with
    | some plain => plain :: unescape mark rest
    | none => '\\' :: unescape mark (c :: rest)
  | c :: rest => c :: unescape mark rest
  | [] => []

def dropComment : Text → Text
  | [] => []
  | c :: rest =>
    if isBlank c && (skipBlanks rest).head? == some '#' then [] else c :: dropComment rest

def value? : Text → Option (Text × Text)
  | [] => some ([], [])
  | c :: rest =>
    if c == '\'' || c == '"' then
      (spanQuoted? c rest).map fun (body, tail) => (unescape c body, tail)
    else if endsLine c then some ([], c :: rest)
    else
      let line := (c :: rest).takeWhile (!endsLine ·)
      some (((dropComment line).reverse.dropWhile isBlank).reverse,
        (c :: rest).dropWhile (!endsLine ·))

def name? : Text → Option (Option Text × Text)
  | [] => none
  | c :: rest =>
    if c == '#' then some (none, c :: rest)
    else if c == '\'' then
      let body := rest.takeWhile (· != '\'')
      match rest.dropWhile (· != '\'') with
      | _ :: tail => if body.isEmpty then none else some (some body, tail)
      | [] => none
    else
      let isNameChar := fun (d : Char) => d != '=' && d != '#' && !isBlank d
      let body := (c :: rest).takeWhile isNameChar
      if body.isEmpty then none else some (some body, (c :: rest).dropWhile isNameChar)

def lineEnd? (t : Text) : Option Text :=
  let afterComment :=
    match skipInner t with
    | '#' :: rest => rest.dropWhile (!endsLine ·)
    | _ => t
  match skipInner afterComment with
  | [] => some []
  | c :: rest => if endsLine c then some rest else none

def line (t : Text) : Option Binding × Text :=
  let start := skipExport t
  match name? start with
  | none => (none, afterLine start)
  | some (name, afterName) =>
    let rest := skipInner afterName
    let read : Option (Option Text) × Text :=
      match rest with
      | '=' :: tail =>
        match value? (skipInner tail) with
        | some (value, after) => (some (some value), after)
        | none => (none, skipInner tail)
      | _ => (some none, rest)
    match read with
    | (none, after) => (none, afterLine after)
    | (some value, after) =>
      match lineEnd? after with
      | some next => (name.map fun n => (n, value), next)
      | none => (none, afterLine after)

def bindingsFuel : Nat → Text → List Binding
  | 0, _ => []
  | fuel + 1, t =>
    match skipBlanks t with
    | [] => []
    | c :: rest =>
      let (found, next) := line (c :: rest)
      found.toList ++ bindingsFuel fuel next

def bindings (file : Text) : List Binding :=
  let t := unixLines file
  bindingsFuel (t.length + 1) t

def reference? : Text → Option (Text × Text × Text)
  | '$' :: '\x7b' :: rest =>
    let isNameChar := fun (c : Char) => c != '\x7d' && c != ':'
    let name := rest.takeWhile isNameChar
    match rest.dropWhile isNameChar with
    | '\x7d' :: tail => some (name, [], tail)
    | ':' :: '-' :: more =>
      match more.dropWhile (· != '\x7d') with
      | _ :: tail => some (name, more.takeWhile (· != '\x7d'), tail)
      | [] => none
    | _ => none
  | _ => none

def interpolateFuel (find : Text → Option Text) : Nat → Text → Text
  | 0, t => t
  | fuel + 1, t =>
    match reference? t with
    | some (name, standIn, rest) => (find name).getD standIn ++ interpolateFuel find fuel rest
    | none =>
      match t with
      | [] => []
      | c :: rest => c :: interpolateFuel find fuel rest

def interpolate (find : Text → Option Text) (t : Text) : Text :=
  interpolateFuel find t.length t

def set (bound : List Binding) (name : Text) (value : Option Text) : List Binding :=
  if bound.any fun (n, _) => n == name then
    bound.map fun (n, v) => if n == name then (n, value) else (n, v)
  else bound ++ [(name, value)]

/-- The assignments with their references replaced.  A variable that is set already takes
precedence over an earlier assignment. -/
def resolve (environment : List (Text × Text)) (assigned : List Binding) : List Binding :=
  assigned.foldl (fun bound (name, value) =>
    let find := fun n =>
      match environment.lookup n with
      | some v => some v
      | none => (bound.lookup n).map (·.getD [])
    set bound name (value.map (interpolate find))) []

/-- The variables after reading a file: what is set already stays as it is. -/
def load (environment : List (Text × Text)) (file : Text) : List (Text × Text) :=
  environment ++ (resolve environment (bindings file)).filterMap fun (name, value) =>
    match value with
    | some v => if (environment.lookup name).isSome then none else some (name, v)
    | none => none

def reader : Config.FileReader where
  load := load
  lookup_load set _ := by rw [load, List.lookup_append, set, Option.some_or]

end Wager.EnvFile
