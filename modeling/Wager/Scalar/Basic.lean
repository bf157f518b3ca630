import Wager.Decimal.Numeral
import Wager.Decimal.Fixed

/-!
# Scalars

The numbers that odds, probabilities, payouts and bankrolls are counted in.  The rules of this
library are written once over any such number: machine doubles run them, exact numbers reason about
them.  Comparison, minimum and maximum are spelled out because a scalar may be incomparable with
everything, itself included.
-/

namespace Wager

/-- Numbers with the arithmetic, the order and the readings that the rules need. -/
class Scalar (α : Type) extends Add α, Sub α, Mul α, Div α, Neg α, LT α, LE α, OfScientific α where
  /-- The strict order can be tested. -/
  decideLt : DecidableLT α
  /-- The order can be tested. -/
  decideLe : DecidableLE α
  /-- The scalar nearest to an integer; none when the integer is too large. -/
  ofInt? : Int → Option α
  /-- The scalar nearest to a written number; none when it has no such scalar. -/
  ofNumeral? : Numeral → Option α
  /-- Whether a scalar stands for a number. -/
  isFinite : α → Bool
  /-- The greatest integer that is not above a number. -/
  floor : α → Int
  /-- The integer nearest to `x · 10 ^ places`; a half goes to the even neighbour. -/
  scaled : Nat → α → Int
  sqrt : α → α
  log : α → α
  pow : α → α → α
  /-- The shortest text that reads back as the same scalar. -/
  text : α → Text

attribute [reducible, instance] Scalar.decideLt Scalar.decideLe

namespace Scalar

variable {α : Type} [Scalar α]

/-- The larger of two scalars; the first one unless the second is larger. -/
def max (a b : α) : α := if a < b then b else a

def min (a b : α) : α := if b < a then b else a

def clamp (value low high : α) : α := max low (min high value)

def abs (a : α) : α := if a < 0.0 then -a else a

def ofNat (n : Nat) : α := OfScientific.ofScientific n false 0

def sum (xs : List α) : α := xs.foldl (· + ·) 0.0

def isZero (a : α) : Bool := a ≤ 0.0 && 0.0 ≤ a

/-- Whether a scalar is incomparable even with itself. -/
def isUndefined (a : α) : Bool := !(a ≤ a)

def finite? (a : α) : Option α := if isFinite a then some a else none

def ofText? (t : Text) : Option α := ((Numeral.read? t).bind ofNumeral?).bind finite?

def fixed (places : Nat) (a : α) : Text :=
  if isFinite a then
    let digits := Decimal.fixedText places (scaled places a).natAbs
    if a < 0.0 then '-' :: digits else digits
  else text a

def signedFixed (places : Nat) (a : α) : Text :=
  if a < 0.0 then fixed places a else '+' :: fixed places a

def percent (places : Nat) (a : α) : Text := fixed places (a * 100.0) ++ ['%']

inductive RoundingError where
  | undefined
  | infinite
  deriving DecidableEq, Repr

def RoundingError.message : RoundingError → String
  | .undefined => "cannot convert float NaN to integer"
  | .infinite => "cannot convert float infinity to integer"

/-- The integer nearest to a scalar; a half goes to the even neighbour. -/
def round (a : α) : Except RoundingError Int :=
  if isFinite a then .ok (scaled 0 a)
  else if isUndefined a then .error .undefined
  else .error .infinite

/-- The integer nearest to a number; a half goes up. -/
def roundHalfUp (a : α) : Int := floor (a + 0.5)

end Scalar

end Wager
