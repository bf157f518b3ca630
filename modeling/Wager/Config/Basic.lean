import Wager.Scalar.Basic

/-!
# Settings

Every default that parsing and staking fall back to, in one value that callers pass along.
-/

namespace Wager

structure Config (α : Type) where
  /-- The age in seconds at which the alias dictionary is built anew. -/
  aliasCacheSeconds : α
  /-- The confidence of a match in percent. -/
  defaultConf : Int
  defaultMode : Text
  /-- The TYS code of both sides. -/
  defaultTys : Text
  defaultFid : α
  /-- The FSE of both sides in percent. -/
  defaultFse : Int
  /-- The price of a match without a usable one. -/
  defaultOdds : α
  /-- The bankroll that fractions are taken of. -/
  initialCapital : α
  /-- The largest part of the bankroll in one stake. -/
  riskCapRatio : α
  /-- What the Kelly stake is divided by in a mode without a divisor of its own. -/
  kellyDivisor : α
  /-- The largest fraction the Kelly search may answer. -/
  maxKellyFraction : α
  deriving DecidableEq, Repr

namespace Config

variable {α : Type} [Scalar α]

def standard : Config α where
  aliasCacheSeconds := 30.0
  defaultConf := 50
  defaultMode := "常规".toList
  defaultTys := "M".toList
  defaultFid := 0.4
  defaultFse := 50
  defaultOdds := 2.5
  initialCapital := 600.0
  riskCapRatio := 0.12
  kellyDivisor := 4.0
  maxKellyFraction := 0.95

/-- The largest single stake in whole units of currency. -/
def riskCap (c : Config α) : Except Scalar.RoundingError Int :=
  Scalar.round (c.initialCapital * c.riskCapRatio)

def summary (c : Config α) : Text :=
  "EngineConfig(ttl=".toList ++ Scalar.text c.aliasCacheSeconds ++ ", capital=".toList ++
    Scalar.text c.initialCapital ++ ", risk_cap_ratio=".toList ++ Scalar.text c.riskCapRatio ++
    ", kelly_divisor=".toList ++ Scalar.text c.kellyDivisor ++ ")".toList

end Config

end Wager
