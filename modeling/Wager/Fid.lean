import Wager.Scalar.Basic

/-!
# The FID ladder

FID values stand on six rungs.  Typed values are moved to the nearest rung; stored values have to be
on one already.
-/

namespace Wager.Fid

variable {α : Type} [Scalar α]

/-- The rungs in ascending order with the factor of each. -/
def table : List (α × α) :=
  [(0.0, 0.92), (0.25, 0.99), (0.4, 1.02), (0.5, 1.05), (0.6, 1.07), (0.75, 1.1)]

def rungs : List α := [0.0, 0.25, 0.4, 0.5, 0.6, 0.75]

def middle : α := 0.4

def rungsText : String := "0.0, 0.25, 0.4, 0.5, 0.6, 0.75"

def isAt (rung value : α) : Bool := Scalar.abs (value - rung) < 1e-9

def rungOf? (value : α) : Option α := rungs.find? (isAt · value)

def nearest (value : α) : List α → α → α
  | [], best => best
  | rung :: rest, best =>
    nearest value rest
      (if Scalar.abs (value - rung) < Scalar.abs (value - best) then rung else best)

theorem nearest_mem (value : α) (others : List α) (best : α) :
    nearest value others best ∈ best :: others := by
  induction others generalizing best with
  | nil => simp [nearest]
  | cons rung rest ih =>
    have h := ih (if Scalar.abs (value - rung) < Scalar.abs (value - best) then rung else best)
    grind [nearest]

/-- The rung nearest to a value; of two equally near ones the lower. -/
def snap (value : α) : α :=
  if Scalar.isFinite value then nearest value (rungs.drop 1) 0.0 else middle

theorem snap_mem_rungs (value : α) : snap value ∈ rungs := by
  unfold snap
  split
  · exact nearest_mem value _ _
  · simp [middle, rungs]

/-- How much a FID value lifts or damps the chance of a match; a value off the ladder does not. -/
def factor (value : Option α) : α :=
  match value with
  | some v => ((table.find? fun (rung, _) => isAt rung v).map (·.2)).getD 1.0
  | none => 1.0

end Wager.Fid
