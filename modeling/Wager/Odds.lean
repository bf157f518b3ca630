import Wager.Datum

/-!
# Decimal odds

Decimal odds are the gross payout per unit staked, the stake included: odds of two return two units
on a winning one-unit ticket.  Odds are usable when they are a number above one.
-/

namespace Wager.Odds

variable {α : Type} [Scalar α]

/-- Probability masses at or below this count as zero. -/
def negligible : α := 1e-9

def impliedMin : α := 1e-4

def impliedMax : α := 0.995

/-- The smallest price that still pays something above the stake. -/
def least : α := 1.01

inductive PriceError (α : Type) where
  | unusable (odds : α)
  deriving DecidableEq, Repr

def PriceError.message : PriceError α → String
  | .unusable odds =>
    "decimal_odds must be positive and finite, got " ++ String.ofList (Scalar.text odds) ++ "."

def isUsable (odds : α) : Bool := Scalar.isFinite odds && 1.0 < odds

/-- Whether a loosely typed value is usable odds.  A text never is, even when it spells a number. -/
def isUsableDatum : Datum α → Except Datum.Overflow Bool
  | .int n =>
    match (Scalar.ofInt? n : Option α) with
    | some x => .ok (isUsable x)
    | none => .error .integerTooLarge
  | .real x => .ok (isUsable x)
  | _ => .ok false

/-- The probability at which odds break even, within the bounds for one entry. -/
def implied (odds : α) : α := Scalar.clamp (1.0 / odds) impliedMin impliedMax

def implied? (odds : α) : Except (PriceError α) α :=
  if Scalar.isFinite odds && 0.0 < odds then .ok (implied odds) else .error (.unusable odds)

end Wager.Odds
