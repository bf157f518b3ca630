import Wager.Check.Basic
import Wager.Decimal.Numeral
import Wager.Entry.Semantic

/-!
# Lenient coercions

Coercions that a field may be brought to its type by: a number may be spelled by a text, a truth
value is the number one or zero, and an integer may have a zero fraction.
-/

namespace Wager.Coercion

variable {α : Type} [Scalar α]

/-- Removes underscores, each of which has to stand alone inside the text; `none` when one does not
or there is none. -/
def dropUnderscores? (t : Text) : Option Text :=
  if t.head? == some '_' || t.getLast? == some '_' || !t.contains '_' ||
      Text.occursIn ['_', '_'] t then none
  else some (t.filter (· != '_'))

def plainNumeral? (t : Text) : Option Numeral :=
  if t.all fun c => c.toNat < 0x80 && !Text.isBlank c && c != '_' then Numeral.read? t else none

def numeral? (t : Text) : Option Numeral :=
  plainNumeral? (Numeral.trimOuter t) <|> ((dropUnderscores? t).bind plainNumeral?)

def laxNumber : Datum α → Checked α
  | .real x => .ok x
  | .bool b => .ok (if b then 1.0 else 0.0)
  | .int n =>
    match Scalar.ofInt? n with
    | some x => .ok x
    | none => .fail .notNumber
  | .text t =>
    match (numeral? t).bind Scalar.ofNumeral? with
    | some x => .ok x
    | none => .fail .notNumberText
  | _ => .fail .notNumber

/-- Drops the zeros and underscores an integer's text may begin with; at least one digit stays. -/
def dropLeadingZeros? : Text → Option Text
  | '0' :: rest =>
    match rest.dropWhile fun c => c == '0' || c == '_' with
    | [] => some [rest.getLast?.getD '0']
    | c :: tail =>
      if c.isDigit then some (c :: tail)
      else if c == '.' then
        let before := rest.takeWhile fun c => c == '0' || c == '_'
        some (before.getLast?.getD '0' :: c :: tail)
      else none
  | c :: rest => if c.isDigit || c == '-' then some (c :: rest) else none
  | [] => none

def dropZeroFraction? (t : Text) : Option Text :=
  match t.dropWhile (· != '.') with
  | [] => some t
  | _ :: fraction => if fraction.all (· == '0') then some (t.takeWhile (· != '.')) else none

def plainInteger? (t : Text) : Option Int :=
  let (negative, digits) :=
    match t with
    | '-' :: rest => (true, rest)
    | rest => (false, rest)
  if digits.isEmpty || !digits.all Char.isDigit then none
  else
    let value : Int := Text.digitsValue digits
    some (if negative then -value else value)

def integerText? (t : Text) : Option Int := do
  let core := Numeral.trimOuter t
  let unsigned ←
    match core with
    | '+' :: '-' :: _ => none
    | '+' :: rest => some rest
    | rest => some rest
  let digits ← dropZeroFraction? (← dropLeadingZeros? unsigned)
  plainInteger? ((dropUnderscores? digits).getD digits)

def laxInteger : Datum α → Checked Int
  | .int n => .ok n
  | .bool b => .ok (if b then 1 else 0)
  | .real x =>
    if !Scalar.isFinite x then .fail .notFinite
    else if !Scalar.isWhole x then .fail .fractional
    else
      let n := Scalar.floor x
      if -9223372036854775808 < n && n < 9223372036854775808 then .ok n else .fail .integerSize
  | .text t =>
    if 4300 < t.length then .fail .integerSize
    else
      match integerText? t with
      | some n => .ok n
      | none => .fail .notIntegerText
  | _ => .fail .notInteger

@[reducible] def lax : Coercion α where
  text
    | .text t => .ok t
    | _ => .fail .notText
  number := laxNumber
  integer := laxInteger
  text_text _ := rfl
  number_real _ := rfl
  integer_int _ := rfl

end Wager.Coercion
