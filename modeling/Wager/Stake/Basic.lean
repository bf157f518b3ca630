import Wager.Config.Basic
import Wager.Kelly
import Wager.Parlay
import Wager.Stake.Outlook

/-!
# Stakes

The amount to stake on a ticket: the growth-optimal part of the bankroll, divided by the mean
divisor of the modes, lifted by the rating of the ticket and cut at the risk cap.
-/

namespace Wager

inductive StakeReason where
  | noGrowth
  | capped
  | kelly
  deriving DecidableEq, Repr

def StakeReason.message : StakeReason → String
  | .noGrowth => "no positive-growth stake"
  | .capped => "capped at risk limit"
  | .kelly => "kelly"

structure Stake (α : Type) where
  kellyFraction : α
  kellyDivisor : α
  /-- The mean chance of the matches. -/
  rating : α
  lift : α
  riskCap : Int
  /-- The amount before lift, cap and rounding. -/
  rawAmount : α
  amount : Int
  reason : StakeReason
  deriving DecidableEq, Repr

inductive StakeError where
  | rounding (e : Scalar.RoundingError)
  | overflow (e : Datum.Overflow)
  | zeroDivisor
  deriving DecidableEq, Repr

def StakeError.message : StakeError → String
  | .rounding e => e.message
  | .overflow e => e.message
  | .zeroDivisor => "float division by zero"

namespace Stake

variable {α : Type} [Scalar α]

/-- The Kelly divisor of a mode; a value that names no mode has the configured one. -/
def divisorOf (mode : Datum α) (config : Config α) : α :=
  ((SizedMatch.modeOf mode).map Mode.kellyDivisor).getD config.kellyDivisor

/-- The mean divisor of the modes, or the configured one where the mean is no positive number. -/
def meanDivisor (modes : List (Datum α)) (config : Config α) : α :=
  if modes.isEmpty then config.kellyDivisor
  else
    let mean := Scalar.sum (modes.map (divisorOf · config)) / Scalar.ofNat modes.length
    if Scalar.isFinite mean && 0.0 < mean then mean else config.kellyDivisor

def liftOf (rating : α) : α := 0.88 + rating * 0.24

def kellyOf (p : Parlay α) (config : Config α) : α :=
  let states := p.states.filterMap fun s =>
    Kelly.Prospect.keep? (Scalar.finite? s.probability) (Scalar.finite? s.net)
  Kelly.optimalFraction states (Scalar.finite? config.maxKellyFraction)

def amountOf (rounded riskCap : Int) : Int := min riskCap (max 0 rounded)

def reasonOf (rounded riskCap : Int) : StakeReason :=
  if amountOf rounded riskCap = riskCap ∧ riskCap < rounded then .capped else .kelly

/-- The stake on a ticket with matches in these modes. -/
def recommend (p : Parlay α) (modes : List (Datum α)) (expectedRating : Datum α)
    (config : Config α) : Except StakeError (Stake α) := do
  let riskCap ← config.riskCap.mapError .rounding
  let divisor := meanDivisor modes config
  let given ← (expectedRating.numberOr 0.0).mapError .overflow
  let rating := Scalar.clamp given 0.0 1.0
  let kelly := kellyOf p config
  if kelly ≤ 0.0 then
    return ⟨0.0, divisor, rating, liftOf rating, riskCap, 0.0, 0, .noGrowth⟩
  if Scalar.isZero divisor then .error .zeroDivisor
  let raw := config.initialCapital * kelly / divisor
  let rounded ← (Scalar.round (raw * liftOf rating)).mapError .rounding
  return ⟨kelly, divisor, rating, liftOf rating, riskCap, raw, amountOf rounded riskCap,
    reasonOf rounded riskCap⟩

def distributions (games : List (SizedMatch α)) (config : Config α) :
    Except Datum.Overflow (List (MatchDistribution α)) :=
  games.mapM (·.distribution config.defaultOdds)

def ratingOf (legs : List (MatchDistribution α)) : α :=
  if legs.isEmpty then 0.0
  else Scalar.sum (legs.map (·.unionProbability)) / Scalar.ofNat legs.length

def ofMatches (games : List (SizedMatch α)) (config : Config α) : Except StakeError (Stake α) := do
  let legs ← (distributions games config).mapError .overflow
  recommend (Parlay.combine legs) (games.map (·.mode)) (.real (ratingOf legs)) config

end Stake

end Wager
