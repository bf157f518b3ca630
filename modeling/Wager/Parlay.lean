import Wager.Distribution.Match

/-!
# Parlays

A parlay pays the product of its legs' payouts.  Its distribution is built leg by leg; joint states
whose payouts agree to eight decimals are one state, and joint states without mass are dropped.
-/

namespace Wager

/-- The joint distribution of a ticket on several matches. -/
structure Parlay (α : Type) where
  states : List (State Text α)
  legs : Nat
  deriving DecidableEq, Repr

namespace Parlay

variable {α : Type} [Scalar α]

def mergePlaces : Nat := 8

/-- A joint state on the way: the text of its payout, its mass and its payout. -/
structure Slot (α : Type) where
  key : Text
  probability : α
  gross : α
  deriving DecidableEq, Repr

def mergeKey (gross : α) : Text := Scalar.fixed mergePlaces gross

def addMass (slots : List (Slot α)) (gross probability : α) : List (Slot α) :=
  let key := mergeKey gross
  if slots.any (·.key == key) then
    slots.map fun s =>
      if s.key == key then { s with probability := s.probability + probability } else s
  else slots ++ [⟨key, 0.0 + probability, gross⟩]

def extend {ι : Type} (slots : List (Slot α)) (leg : List (State ι α)) : List (Slot α) :=
  slots.foldl (fun merged base =>
    leg.foldl (fun merged s =>
      let probability := base.probability * s.probability
      if probability ≤ Odds.negligible then merged
      else addMass merged (base.gross * s.gross) probability) merged) []

def joint {ι : Type} (legs : List (List (State ι α))) : List (Slot α) :=
  legs.foldl extend [⟨['1'], 1.0, 1.0⟩]

/-- A joint state.  A payout of nothing is a miss. -/
def stateOf (gross probability : α) : State Text α :=
  if gross ≤ 0.0 then ⟨mergeKey gross, missLabel, probability, gross, true⟩
  else ⟨mergeKey gross, 'x' :: Scalar.fixed 2 gross, probability, gross, false⟩

def degenerate : Parlay α := ⟨[⟨missLabel, missLabel, 1.0, 0.0, true⟩], 0⟩

/-- The joint distribution of independent matches. -/
def combine (games : List (MatchDistribution α)) : Parlay α :=
  if games.isEmpty then degenerate
  else
    let slots := joint (games.map (·.states))
    let total := Scalar.sum (slots.map (·.probability))
    if total ≤ Odds.negligible then degenerate
    else
      { states := slots.filterMap fun s =>
          let share := s.probability / total
          if Odds.negligible < share then some (stateOf s.gross share) else none
        legs := games.length }

def statistics (p : Parlay α) : Statistics α := Statistics.ofStates p.states

end Parlay

namespace Summary

variable {ι α : Type} [Scalar α]

def stateLine (s : State ι α) : Text :=
  "     ".toList ++ s.label ++ List.replicate (10 - s.label.length) ' ' ++ " p=".toList ++
    Scalar.fixed 4 s.probability ++ " gross=".toList ++ Scalar.fixed 4 s.gross

/-- A summary in lines: the figures, then the six likeliest states.  A ticket without legs is
headed as a single match. -/
def lines (legs : Nat) (states : List (State ι α)) : List Text :=
  let stats := Statistics.ofStates states
  let header :=
    if legs == 0 then "Match Profile".toList else Text.ofNat legs ++ "-Leg Parlay".toList
  let likeliest := (states.mergeSort fun a b => !(a.probability < b.probability)).take 6
  [header ++ " @ ".toList ++ Scalar.fixed 2 stats.conditionalOdds ++ " (conditional)".toList,
    "   Hit Prob: ".toList ++ Scalar.percent 2 stats.hitProbability ++ "   Profit Prob: ".toList ++
      Scalar.percent 2 stats.profitProbability,
    "   Expected Return: ".toList ++ Scalar.signedFixed 4 stats.expectedReturn ++
      " per unit   Sigma: ".toList ++ Scalar.fixed 4 stats.sigma,
    "   States: ".toList ++ Text.ofNat states.length] ++ likeliest.map stateLine

def text (legs : Nat) (states : List (State ι α)) : Text := Text.join ['\n'] (lines legs states)

end Summary

end Wager
