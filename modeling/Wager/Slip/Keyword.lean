import Wager.Entry.Reader
import Wager.Slip.Pattern
import Wager.Tys

/-!
# Keywords and their values

The shapes in which a slip states a parameter: a keyword with numbers behind it, a number with the
keyword behind it, and a keyword that names a side.  Latin keywords stand apart from other Latin
letters and digits, ideographs need not.  The digits of a score are no values.
-/

namespace Wager

open Text

inductive Side where
  | home
  | away
  deriving DecidableEq, Repr

namespace Keyword

def standsFree (before : Option Char) : Bool :=
  !before.any fun c => isLatinLetter c || c.isDigit || c == '_'

def endsWord (rest : Text) : Bool := !rest.head?.any isLatinLetter

/-- A Latin keyword in any letter case, apart from Latin letters on both sides. -/
def word? (w : Text) (before : Option Char) (t : Text) : Option Text := do
  guard (standsFree before)
  let rest ← afterWord? w t
  guard (endsWord rest)
  return rest

def mark? (m t : Text) : Option Text := if m.isPrefixOf t then some (t.drop m.length) else none

/-- Skips blanks with at most one colon or equals sign among them. -/
def skipAssign (t : Text) : Text :=
  match skipBlanks t with
  | ':' :: rest => skipBlanks rest
  | '=' :: rest => skipBlanks rest
  | rest => rest

/-- Whether a score goes on here: a dash or colon with a digit behind it. -/
def scoreFollows (t : Text) : Bool :=
  match skipBlanks t with
  | c :: rest => (c == '-' || c == ':') && (skipBlanks rest).head?.any isDigit
  | [] => false

def fractionFollows : Text → Bool
  | '.' :: c :: _ => isDigit c
  | _ => false

def spanNumber? (t : Text) : Option (Text × Text) :=
  match t with
  | '.' :: tail =>
    let fraction := tail.takeWhile isDigit
    if fraction.isEmpty then none else some ('.' :: fraction, tail.dropWhile isDigit)
  | _ => spanDecimal? t

/-- A number that no score and no second fraction continues. -/
def number? (t : Text) : Option (Text × Text) := do
  let (digits, rest) ← spanNumber? t
  guard (!fractionFollows rest && !scoreFollows rest)
  return (digits, rest)

/-- One more number of a list: behind a comma or slash, or behind blanks alone. -/
def nextNumber? (t : Text) : Option (Text × Text) :=
  match skipBlanks t with
  | ',' :: rest => number? (skipBlanks rest)
  | '/' :: rest => number? (skipBlanks rest)
  | rest => if rest.length < t.length then number? rest else none

def moreNumbers : Nat → Text → List Text × Text
  | 0, t => ([], t)
  | most + 1, t =>
    match nextNumber? t with
    | some (digits, rest) =>
      let (more, tail) := moreNumbers most rest
      (digits :: more, tail)
    | none => ([], t)

/-- A list of numbers, as typed.  There are never more numbers than characters. -/
def numbers? (t : Text) : Option (List Text × Text) := do
  let (digits, rest) ← number? t
  let (more, tail) := moreNumbers rest.length rest
  return (digits :: more, tail)

def numbersAfter (keyword : Option Char → Text → Option Text) : Pattern (List Text) :=
  fun before t => do numbers? (skipAssign (← keyword before t))

def startsNumber (before : Option Char) : Bool :=
  !before.any fun c => isLatinLetter c || isDigit c || c == '.' || c == ':' || c == '-'

def numberBefore (keyword : Text → Option Text) : Pattern (List Text) :=
  fun before t => do
    guard (startsNumber before)
    let (digits, rest) ← number? t
    return ([digits], ← keyword (skipBlanks rest))

/-- A Latin keyword that ends before a non-letter, whatever stands in front of it. -/
def wordEnd? (w t : Text) : Option Text := word? w none t

def sideWord? (t : Text) : Option (Side × Text) :=
  ((afterWord? "home".toList t).map (.home, ·)) <|> ((afterWord? "away".toList t).map (.away, ·))

def sideCharacter? : Text → Option (Side × Text)
  | '主' :: rest => some (.home, rest)
  | '客' :: rest => some (.away, rest)
  | _ => none

def skipJoints (t : Text) : Text := t.dropWhile fun c => c == '_' || isBlank c

/-- A keyword with the side behind it, up to the value. -/
def sideAfter (w : Text) : Pattern Side := fun before t => do
  guard (standsFree before)
  let rest := skipJoints (← afterWord? w t)
  let (side, rest) ← sideWord? rest <|> sideCharacter? rest
  return (side, skipAssign rest)

def sideBefore (w : Text) : Pattern Side := fun before t => do
  let (side, rest) ← (if standsFree before then sideWord? t else none) <|> sideCharacter? t
  return (side, skipAssign (← afterWord? w (skipJoints rest)))

def sided {β : Type} (side : Pattern Side) (value : Text → Option (β × Text)) :
    Pattern (Side × β) := fun before t => do
  let (s, rest) ← side before t
  let (v, rest) ← value rest
  return ((s, v), rest)

def code? : Text → Option (Tys × Text)
  | c :: rest => (Tys.all.find? fun g => sameLetter g.code.toLower c).map (·, rest)
  | [] => none

def endingCode? (t : Text) : Option (Tys × Text) := do
  let (grade, rest) ← code? t
  guard (endsWord rest)
  return (grade, rest)

def secondCode? (t : Text) : Option (Tys × Text) :=
  match skipBlanks t with
  | ',' :: rest => endingCode? (skipBlanks rest)
  | '/' :: rest => endingCode? (skipBlanks rest)
  | rest => if rest.length < t.length then endingCode? rest else none

/-- The TYS keyword with one code or a pair behind it. -/
def codesAfter : Pattern (List Tys) := fun before t => do
  guard (standsFree before)
  let (first, rest) ← code? (skipAssign (← afterWord? "tys".toList t))
  match secondCode? rest with
  | some (second, tail) => return ([first, second], tail)
  | none =>
    guard (endsWord rest)
    return ([first], rest)

end Keyword

end Wager
