import Wager.Scalar.Basic

/-!
# Modes

The staking styles a match can be played in.  A mode sets by how much the Kelly stake is divided and
lifts or damps the estimated chance of a match.
-/

namespace Wager

inductive Mode where
  | steady
  | leveraged
  | aggressive
  | halfInsured
  | insured
  | gamble
  | standard
  deriving DecidableEq, Repr

namespace Mode

/-- All modes, longer labels before those they contain. -/
def all : List Mode :=
  [.steady, .leveraged, .aggressive, .halfInsured, .insured, .gamble, .standard]

def label : Mode → Text
  | .steady => "常规-稳".toList
  | .leveraged => "常规-杠杆".toList
  | .aggressive => "常规-激进".toList
  | .halfInsured => "半彩票半保险".toList
  | .insured => "保险产品".toList
  | .gamble => "赌一把".toList
  | .standard => "常规".toList

def ofLabel? (t : Text) : Option Mode := all.find? (·.label == t)

@[simp] theorem ofLabel?_label (m : Mode) : ofLabel? m.label = some m := by
  cases m <;> rfl

def aliases : List (Text × Mode) := [
  ("stable".toList, .steady), ("稳".toList, .steady),
  ("leverage".toList, .leveraged), ("杠杆".toList, .leveraged),
  ("aggressive".toList, .aggressive), ("激进".toList, .aggressive),
  ("gamble".toList, .gamble), ("赌".toList, .gamble),
  ("insurance".toList, .insured), ("保险".toList, .insured),
  ("half".toList, .halfInsured)]

variable {α : Type} [Scalar α]

/-- What the Kelly stake is divided by.  Insured modes stake more, gambles less. -/
def kellyDivisor : Mode → α
  | .standard => 4.0
  | .steady => 3.5
  | .leveraged => 4.5
  | .aggressive => 4.5
  | .halfInsured => 5.0
  | .insured => 3.0
  | .gamble => 6.0

def factor : Mode → α
  | .standard => 1.0
  | .steady => 1.05
  | .leveraged => 0.95
  | .aggressive => 0.95
  | .halfInsured => 0.92
  | .insured => 1.08
  | .gamble => 0.88

end Mode

end Wager
