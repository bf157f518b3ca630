import Wager.Odds

/-!
# Payout distributions

A distribution is a list of states, each with its probability and its gross payout per unit staked.
Its statistics split the states into hits and misses.
-/

namespace Wager

/-- One state of a payout distribution, with an identifier of type `ι`. -/
structure State (ι α : Type) where
  id : ι
  label : Text
  probability : α
  gross : α
  isMiss : Bool
  deriving DecidableEq, Repr

def missLabel : Text := "miss".toList

structure Statistics (α : Type) where
  hitProbability : α
  missProbability : α
  profitProbability : α
  expectedGross : α
  expectedReturn : α
  variance : α
  sigma : α
  conditionalOdds : α
  deriving DecidableEq, Repr

section

variable {ι α : Type} [Scalar α]

def State.net (s : State ι α) : α := s.gross - 1.0

namespace Statistics

def mass (states : List (State ι α)) : α := Scalar.sum (states.map (·.probability))

def weightedGross (states : List (State ι α)) : α :=
  Scalar.sum (states.map fun s => s.probability * s.gross)

/-- The statistics of a distribution.  The conditional odds are the expected payout given a hit,
zero when hits have no mass. -/
def ofStates (states : List (State ι α)) : Statistics α :=
  let hits := states.filter (!·.isMiss)
  let expectedGross := weightedGross states
  let expectedReturn := expectedGross - 1.0
  let spread := Scalar.sum (states.map fun s =>
    s.probability * ((s.net - expectedReturn) * (s.net - expectedReturn)))
  let variance := Scalar.max spread 0.0
  let hitProbability := mass hits
  { hitProbability
    missProbability := Scalar.max 0.0 (1.0 - hitProbability)
    profitProbability := mass (states.filter fun s => 0.0 < s.net)
    expectedGross
    expectedReturn
    variance
    sigma := Scalar.sqrt variance
    conditionalOdds :=
      if Odds.negligible < hitProbability then weightedGross hits / hitProbability else 0.0 }

end Statistics

end

end Wager
