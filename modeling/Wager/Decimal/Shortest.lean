import Wager.Decimal.Fixed

/-!
# Shortest decimals

The fewest decimal digits that still lie in a rounding interval, and how such digits are written.
The interval is given on a binary grid: its ends and the value itself are whole multiples of one
power of two.
-/

namespace Wager.Decimal

/-- A value and the ends of its rounding interval, all in units of `2 ^ unit`.  `closed` says that
the ends belong to the interval. -/
structure RoundingInterval where
  low : Nat
  value : Nat
  high : Nat
  unit : Int
  closed : Bool

namespace RoundingInterval

def gridNum (i : RoundingInterval) (power : Int) (n : Nat) : Nat :=
  n * Nat.pow 2 i.unit.toNat * Nat.pow 10 (-power).toNat

def gridDen (i : RoundingInterval) (power : Int) : Nat :=
  Nat.pow 2 (-i.unit).toNat * Nat.pow 10 power.toNat

def holds (i : RoundingInterval) (power : Int) (k : Nat) : Bool :=
  let scaled := k * i.gridDen power
  let low := i.gridNum power i.low
  let high := i.gridNum power i.high
  if i.closed then low ≤ scaled && scaled ≤ high else low < scaled && scaled < high

/-- The multiple of `10 ^ power` in the interval that is nearest to the value; of two equally near
ones the even multiple. -/
def nearest? (i : RoundingInterval) (power : Int) : Option Nat :=
  let num := i.gridNum power i.value
  let den := i.gridDen power
  let below := num / den
  let near := roundQuotient num den
  let far := if near == below then below + 1 else below
  if i.holds power near then some near
  else if i.holds power far then some far
  else none

/-- The first grid, from `10 ^ power` downwards, that has a point in the interval. -/
def search (i : RoundingInterval) : Nat → Int → Nat × Int
  | 0, power => (i.value, power)
  | steps + 1, power =>
    match i.nearest? power with
    | some k => (k, power)
    | none => search i steps (power - 1)

/-- An exponent of ten that is not below that of the value's leading digit. -/
def startPower (i : RoundingInterval) : Int :=
  ((Nat.log2 i.value : Int) + 1 + i.unit) * 30103 / 100000 + 1

/-- Digits and exponent of the shortest decimal in the interval. -/
def shortest (i : RoundingInterval) : Nat × Int := i.search 24 i.startPower

end RoundingInterval

def dropTrailingZeros (digits : Text) : Text := (digits.reverse.dropWhile (· == '0')).reverse

def exponentText (e : Int) : Text :=
  (if e < 0 then '-' else '+') :: padZeros 2 (Text.ofNat e.natAbs)

/-- The positive number `k · 10 ^ power`: positional from `0.0001` up to sixteen whole digits, else
with an exponent.  A positional number always has a point. -/
def shortestText (k : Nat) (power : Int) : Text :=
  let all := Text.ofNat k
  let digits := dropTrailingZeros all
  let point : Int := all.length + power
  if point ≤ -4 || 16 < point then
    let fraction := digits.drop 1
    digits.take 1 ++ (if fraction.isEmpty then [] else '.' :: fraction) ++
      'e' :: exponentText (point - 1)
  else if point ≤ 0 then
    '0' :: '.' :: (List.replicate (-point).toNat '0' ++ digits)
  else
    let whole := digits.take point.toNat
    let fraction := digits.drop point.toNat
    whole ++ List.replicate (point.toNat - whole.length) '0' ++
      '.' :: (if fraction.isEmpty then ['0'] else fraction)

end Wager.Decimal
