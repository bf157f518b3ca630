import Wager.Odds

/-!
# Kelly stakes

The part of a bankroll to stake so that its logarithm grows fastest: in closed form for a ticket
that wins or loses, by a refined grid search for any discrete distribution.
-/

namespace Wager.Kelly

variable {α : Type} [Scalar α]

def maxFraction : α := 0.95

inductive TicketError (α : Type) where
  | probability (value : α)
  | odds (value : α)
  | divisor (value : α)
  deriving DecidableEq, Repr

def TicketError.message : TicketError α → String
  | .probability p =>
    "win_prob must be in (0, 1), got " ++ String.ofList (Scalar.text p) ++
      ". Check upstream probability clipping."
  | .odds o =>
    "decimal_odds must be > 1.0 (no profit otherwise), got " ++ String.ofList (Scalar.text o) ++ "."
  | .divisor d => "fractional_divisor must be > 0, got " ++ String.ofList (Scalar.text d) ++ "."

/-- The stake on a ticket that wins or loses, `p - q / b` with profit `b` per unit, divided by
`divisor` and at most `limit`; nothing when the ticket has no edge. -/
def ticketFraction (winProbability decimalOdds divisor limit : α) : Except (TicketError α) α :=
  if !(0.0 < winProbability && winProbability < 1.0) then .error (.probability winProbability)
  else if !(1.0 < decimalOdds) then .error (.odds decimalOdds)
  else if divisor ≤ 0.0 then .error (.divisor divisor)
  else
    let profit := decimalOdds - 1.0
    let loss := 1.0 - winProbability
    let full := (winProbability * profit - loss) / profit
    .ok (if full ≤ 0.0 then 0.0 else Scalar.min (full / divisor) limit)

structure Prospect (α : Type) where
  probability : α
  net : α
  deriving DecidableEq, Repr

/-- A state with mass and a finite profit; any other state is left out. -/
def Prospect.keep? (probability net : Option α) : Option (Prospect α) :=
  let p := Scalar.clamp (probability.getD 0.0) 0.0 1.0
  match net with
  | some n => if Odds.negligible < p then some ⟨p, n⟩ else none
  | none => none

def growth (fraction : α) (s : Prospect α) : α := 1.0 + fraction * s.net

/-- The expected logarithm of growth, absent when some state ruins the bankroll. -/
def logGrowth (states : List (Prospect α)) (fraction : α) : Option α :=
  if states.any fun s => growth fraction s ≤ 1e-9 then none
  else some (Scalar.sum (states.map fun s => s.probability * Scalar.log (growth fraction s)))

/-- The points from `low` in steps up to `high`, which is always the last one. -/
def grid (low high step : α) : List α :=
  if high ≤ low then [low]
  else
    let count := (Scalar.floor ((high - low) / step + Odds.negligible)).toNat
    let points := (List.range (count + 1)).map fun i => low + step * Scalar.ofNat i
    let last := low + step * Scalar.ofNat count
    let closed := if Odds.negligible < high - last then points ++ [high] else points
    closed.map (Scalar.min · high)

structure Incumbent (α : Type) where
  fraction : α
  score : α

def improve (states : List (Prospect α)) (best : Incumbent α) (fraction : α) : Incumbent α :=
  match logGrowth states fraction with
  | some score => if best.score < score then ⟨fraction, score⟩ else best
  | none => best

def scan (states : List (Prospect α)) (best : Incumbent α) (fractions : List α) : Incumbent α :=
  fractions.foldl (improve states) best

/-- Looks two steps to either side of the incumbent and halves the step, `rounds` times. -/
def refine (states : List (Prospect α)) (limit : α) : Nat → α → Incumbent α → Incumbent α
  | 0, _, best => best
  | rounds + 1, step, best =>
    let low := Scalar.max 0.0 (best.fraction - 2.0 * step)
    let high := Scalar.min limit (best.fraction + 2.0 * step)
    refine states limit rounds (step * 0.5) (scan states best (grid low high step))

def coarseStep : α := 0.02

def search (states : List (Prospect α)) (limit : α) : α :=
  let start : Incumbent α := ⟨0.0, (logGrowth states 0.0).getD 0.0⟩
  let coarse := scan states start (grid 0.0 limit coarseStep).tail
  Scalar.clamp (refine states limit 4 (coarseStep / 5.0) coarse).fraction 0.0 limit

/-- The growth-optimal fraction of some states, at most `limit` when that is a number. -/
def optimalFraction (states : List (Prospect α)) (limit : Option α) : α :=
  if states.isEmpty then 0.0
  else
    let cap := Scalar.clamp (limit.getD maxFraction) 0.0 maxFraction
    if cap ≤ 0.0 then 0.0 else search states cap

def optimalFractionOf (states : List (Datum α)) (limit : Datum α) : Except Datum.Overflow α := do
  let kept ← states.mapM fun s => do
    let probability ← (s.field "probability".toList).number?
    let net ← (s.field "net".toList).number?
    return Prospect.keep? probability net
  let prospects := kept.filterMap id
  if prospects.isEmpty then return 0.0
  return optimalFraction prospects (← limit.number?)

end Wager.Kelly
