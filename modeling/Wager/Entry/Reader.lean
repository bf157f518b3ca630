import Wager.Entry.Semantic
import Wager.Text.Normalize

/-!
# Reading entries

One reader per market, tried in the order score, half-time/full-time, handicap, total, result; the
first that understands a name decides.  Every reader sees a normalized name.
-/

namespace Wager

open Text

def spanDecimal? (t : Text) : Option (Text × Text) :=
  let whole := t.takeWhile isDigit
  if whole.isEmpty then none
  else
    match t.dropWhile isDigit with
    | '.' :: tail =>
      let fraction := tail.takeWhile isDigit
      if fraction.isEmpty then some (whole, '.' :: tail)
      else some (whole ++ '.' :: fraction, tail.dropWhile isDigit)
    | rest => some (whole, rest)

def spanLine? : Text → Option (Text × Text)
  | [] => none
  | c :: rest =>
    if c == '+' || c == '-' then (spanDecimal? rest).map fun (line, tail) => (c :: line, tail)
    else spanDecimal? (c :: rest)

/-- The letters of outcome words: ASCII letters and the common ideographs. -/
def isWordChar (c : Char) : Bool := c.isAlpha || (0x4E00 ≤ c.toNat && c.toNat ≤ 0x9FA5)

def isWord (t : Text) : Bool := !t.isEmpty && t.all isWordChar

namespace Reading

variable {α : Type} [Scalar α]

/-- One or two digits, a dash or colon, one or two digits. -/
def ofScore? (t : Text) : Option (Reading α) :=
  let home := t.takeWhile isDigit
  match skipBlanks (t.dropWhile isDigit) with
  | mark :: rest =>
    let away := skipBlanks rest
    if (mark == '-' || mark == ':') && (home.length == 1 || home.length == 2) &&
        (away.length == 1 || away.length == 2) && away.all isDigit then
      some (.score (digitsValue home) (digitsValue away))
    else none
  | [] => none

def ofWords? (half full : Text) : Option (Reading α) := do
  return .halfFull (← Outcome.ofToken? half) (← Outcome.ofToken? full)

/-- The marks that join the halves of a pair, all as dashes with no blank around them. -/
def dashed (t : Text) : Text :=
  let joined := t.map fun c => if c == '/' || c == '|' || c == '>' || c == '→' then '-' else c
  dropBlanksAfter '-' (dropBlanksBefore '-' joined)

def ofDashedPair? (t : Text) : Option (Reading α) :=
  match splitWhere (· == '-') t with
  | [half, full] => if isWord half && isWord full then ofWords? half full else none
  | _ => none

def ofSpacedPair? (t : Text) : Option (Reading α) :=
  match words t with
  | [half, full] => ofWords? half full
  | _ => none

def isPairLetter (c : Char) : Bool :=
  ['w', 'd', 'l', 'W', 'D', 'L'].contains c

def isPairCharacter (c : Char) : Bool := ['胜', '平', '负'].contains c

/-- Two outcome characters side by side, both letters or both ideographs. -/
def ofPairedCharacters? : Text → Option (Reading α)
  | [half, full] =>
    if (isPairLetter half && isPairLetter full) ||
        (isPairCharacter half && isPairCharacter full) then ofWords? [half] [full]
    else none
  | _ => none

/-- Two of the words for win, draw and lose written as one. -/
def ofJoinedWords? (t : Text) : Option (Reading α) :=
  let lowered := lower t
  let pairs := Outcome.all.flatMap fun half => Outcome.all.map fun full => (half, full)
  (pairs.find? fun (half, full) => lowered == half.key ++ full.key).map fun (half, full) =>
    .halfFull half full

def ofHalfFull? (t : Text) : Option (Reading α) :=
  let pair := dashed t
  let bare := pair.filter (· != '-')
  ofDashedPair? pair <|> ofSpacedPair? t <|> ofPairedCharacters? bare <|> ofJoinedWords? bare

def dropHandicapWord : Text → Text
  | '让' :: '球' :: rest => ' ' :: dropHandicapWord rest
  | '让' :: rest => ' ' :: dropHandicapWord rest
  | c :: rest => c :: dropHandicapWord rest
  | [] => []

/-- Moves a digit up to the sign that stands before it. -/
def closeSigns (t : Text) : Text :=
  t.foldr (fun c rest =>
    if (c == '+' || c == '-') && (skipBlanks rest).head?.any isDigit then c :: skipBlanks rest
    else c :: rest) []

/-- A handicap without brackets, the handicap word and superfluous blanks. -/
def handicapCore (t : Text) : Text :=
  let bare := t.map fun c => if c == '(' || c == ')' then ' ' else c
  trim (collapse (closeSigns (dropHandicapWord bare)))

def ofLeadingLine? (t : Text) : Option (Reading α) := do
  let (line, rest) ← spanLine? t
  let word := skipBlanks rest
  guard (isWord word)
  return .handicap (← Scalar.ofText? line) (← Outcome.ofToken? word)

def ofTrailingLine? (t : Text) : Option (Reading α) := do
  let word := t.takeWhile isWordChar
  guard (!word.isEmpty)
  let (line, rest) ← spanLine? (skipBlanks (t.dropWhile isWordChar))
  guard rest.isEmpty
  return .handicap (← Scalar.ofText? line) (← Outcome.ofToken? word)

/-- A handicap: a line and an outcome in either order. -/
def ofHandicap? (t : Text) : Option (Reading α) :=
  let core := handicapCore t
  ofLeadingLine? core <|> ofTrailingLine? core

def ofLeadingDirection? (t : Text) : Option (Reading α) := do
  let direction ← Direction.ofShortSpelling? (t.takeWhile (!isDigit ·))
  let (line, rest) ← spanDecimal? (t.dropWhile (!isDigit ·))
  guard rest.isEmpty
  return .total direction (← Scalar.ofText? line)

def ofTrailingDirection? (t : Text) : Option (Reading α) := do
  let (line, rest) ← spanDecimal? t
  return .total (← Direction.ofShortSpelling? rest) (← Scalar.ofText? line)

/-- A goals total: a direction and an unsigned line in either order, blanks ignored. -/
def ofTotal? (t : Text) : Option (Reading α) :=
  let core := squeeze t
  ofLeadingDirection? core <|> ofTrailingDirection? core

def ofResult? (t : Text) : Option (Reading α) := (Outcome.ofToken? t).map .result

def ofName (t : Text) : Reading α :=
  (ofScore? t <|> ofHalfFull? t <|> ofHandicap? t <|> ofTotal? t <|> ofResult? t).getD .other

end Reading

namespace Semantic

variable {α : Type} [Scalar α]

def ofText (t : Text) : Semantic α :=
  let name := normalizeName t
  ⟨name, Reading.ofName name⟩

end Semantic

end Wager
