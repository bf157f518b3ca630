import Wager.Scalar.Basic
import Wager.Decimal.Shortest

/-!
# Machine doubles as scalars

A double is read through its bits: a finite one is a signed integer times a power of two, and all
its texts and roundings are computed from that exact value.
-/

namespace Wager

/-- The exact meaning of a double. -/
inductive Double where
  /-- The number `mantissa · 2 ^ exponent` or its negative. -/
  | finite (negative : Bool) (mantissa : Nat) (exponent : Int)
  | infinite (negative : Bool)
  | undefined
  deriving DecidableEq, Repr

namespace Double

def ofFloat (x : Float) : Double :=
  let bits := x.toBits.toNat
  let negative := bits / Nat.pow 2 63 == 1
  let biased : Nat := bits / Nat.pow 2 52 % Nat.pow 2 11
  let fraction : Nat := bits % Nat.pow 2 52
  if biased == 2047 then
    if fraction == 0 then .infinite negative else .undefined
  else if biased == 0 then .finite negative fraction (-1074)
  else .finite negative (Nat.pow 2 52 + fraction) ((biased : Int) - 1075)

def signed (negative : Bool) (n : Nat) : Int := if negative then -(n : Int) else n

def scaled (places : Nat) : Double → Int
  | .finite negative m e =>
    signed negative
      (Decimal.roundQuotient (m * Nat.pow 10 places * Nat.pow 2 e.toNat) (Nat.pow 2 (-e).toNat))
  | _ => 0

def floor : Double → Int
  | .finite negative m e => signed negative (m * Nat.pow 2 e.toNat) / (Nat.pow 2 (-e).toNat : Nat)
  | _ => 0

/-- The numbers that round to the double with mantissa `m` and exponent `e`.  Below a power of two
the next double is only half as far away as above it. -/
def interval (m : Nat) (e : Int) : Decimal.RoundingInterval :=
  let nearer := m == Nat.pow 2 52 && -1074 < e
  { low := if nearer then 4 * m - 1 else 4 * m - 2
    value := 4 * m
    high := 4 * m + 2
    unit := e - 2
    closed := m % 2 == 0 }

/-- The shortest text that reads back as the same double. -/
def text : Double → Text
  | .finite negative m e =>
    let body :=
      if m == 0 then "0.0".toList
      else
        let (digits, power) := (interval m e).shortest
        Decimal.shortestText digits power
    if negative then '-' :: body else body
  | .infinite negative => if negative then "-inf".toList else "inf".toList
  | .undefined => "nan".toList

/-- The double nearest to `digits · 10 ^ exponent`.  Exponents beyond the range of doubles are
decided without computing the power. -/
def ofDecimal (digits : Nat) (exponent : Int) : Float :=
  let leading := (Text.ofNat digits).length + exponent
  if digits == 0 || leading < -330 then 0.0
  else if 310 < leading then 1.0 / 0.0
  else Float.ofScientific digits (exponent < 0) exponent.natAbs

def ofNumeral : Numeral → Float
  | .decimal negative digits exponent =>
    let x := ofDecimal digits exponent
    if negative then -x else x
  | .infinite negative => if negative then -1.0 / 0.0 else 1.0 / 0.0
  | .undefined => 0.0 / 0.0

end Double

instance : Scalar Float where
  decideLt := inferInstance
  decideLe := inferInstance
  ofInt? n :=
    let x := Float.ofInt n
    if x.isFinite then some x else none
  ofNumeral? n := some (Double.ofNumeral n)
  isFinite := Float.isFinite
  floor x := (Double.ofFloat x).floor
  scaled places x := (Double.ofFloat x).scaled places
  sqrt := Float.sqrt
  log := Float.log
  pow := Float.pow
  text x := (Double.ofFloat x).text

end Wager
