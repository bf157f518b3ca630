import Wager.Text.Digit

/-!
# Written numbers

The grammar of numbers in text: an optional sign, digits of any script with an optional point and
exponent, single underscores between digits, and the words for infinity and for no number at all.
Reading gives the exact decimal; rounding to a machine number comes later.
-/

namespace Wager

inductive Numeral where
  /-- The number `digits · 10 ^ exponent` or its negative. -/
  | decimal (negative : Bool) (digits : Nat) (exponent : Int)
  | infinite (negative : Bool)
  | undefined
  deriving DecidableEq, Repr

namespace Numeral

open Text

/-- The blanks that may surround a number: all but the four information separators. -/
def isOuterBlank (c : Char) : Bool := isBlank c && !(0x1C ≤ c.toNat && c.toNat ≤ 0x1F)

def trimOuter (t : Text) : Text := trimWhere isOuterBlank t

def sign : Text → Bool × Text
  | '-' :: rest => (true, rest)
  | '+' :: rest => (false, rest)
  | rest => (false, rest)

/-- Reads digits, between which single underscores may stand, onto `value`.  Answers the value, the
number of digits read so far and the rest. -/
def digitRun (value count : Nat) : Text → Nat × Nat × Text
  | [] => (value, count, [])
  | [c] =>
    match digit? c with
    | some d => (10 * value + d, count + 1, [])
    | none => (value, count, [c])
  | c :: next :: rest =>
    match digit? c with
    | some d => digitRun (10 * value + d) (count + 1) (next :: rest)
    | none =>
      if c == '_' && count != 0 && isDigit next then digitRun value count (next :: rest)
      else (value, count, c :: next :: rest)

def exponent? : Text → Option Int
  | [] => some 0
  | c :: rest =>
    if c == 'e' || c == 'E' then
      let (negative, body) := sign rest
      match digitRun 0 0 body with
      | (value, count, []) =>
        if count == 0 then none else some (if negative then -(value : Int) else value)
      | _ => none
    else none

def unsigned? (negative : Bool) (t : Text) : Option Numeral :=
  let (whole, wholeCount, rest) := digitRun 0 0 t
  let (value, places, tail) :=
    match rest with
    | '.' :: fraction => digitRun whole 0 fraction
    | _ => (whole, 0, rest)
  if wholeCount + places == 0 then none
  else (exponent? tail).map fun e => .decimal negative value (e - places)

def read? (t : Text) : Option Numeral :=
  let (negative, body) := sign (trimOuter t)
  let word := body.map fun c => if c.isUpper then Char.ofNat (c.toNat + 32) else c
  if word == "inf".toList || word == "infinity".toList then some (.infinite negative)
  else if word == "nan".toList then some .undefined
  else unsigned? negative body

/-- The integer a text spells, blanks around it ignored, with the number of its digits. -/
def readInt? (t : Text) : Option (Int × Nat) :=
  let (negative, body) := sign (trimOuter t)
  match digitRun 0 0 body with
  | (value, count, []) =>
    if count == 0 then none else some (if negative then -(value : Int) else value, count)
  | _ => none

end Numeral

end Wager
