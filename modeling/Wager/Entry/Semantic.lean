import Wager.Entry.Market
import Wager.Entry.Outcome
import Wager.Scalar.Basic

/-!
# The meaning of an entry

What a betting entry says, apart from how it was spelled: a score, a half-time/full-time pair, a
handicap, a goals total or a result.  The key prints the meaning, so that spellings of one bet share
it.
-/

namespace Wager

/-- The meaning of an entry that belongs to a market, or `other`. -/
inductive Reading (α : Type) where
  | score (home away : Nat)
  | halfFull (half full : Outcome)
  | handicap (line : α) (outcome : Outcome)
  | total (direction : Direction) (line : α)
  | result (outcome : Outcome)
  | other
  deriving DecidableEq, Repr

/-- An entry's normalized name together with its meaning. -/
structure Semantic (α : Type) where
  name : Text
  reading : Reading α
  deriving DecidableEq, Repr

section

variable {α : Type} [Scalar α]

def Scalar.isWhole (x : α) : Bool :=
  isFinite x &&
    match (ofInt? (floor x) : Option α) with
    | some y => x ≤ y && y ≤ x
    | none => false

/-- A line as keys spell it: whole numbers without a point. -/
def lineText (line : α) : Text :=
  if Scalar.isWhole line then Text.ofInt (Scalar.floor line) else Scalar.text line

namespace Reading

def market : Reading α → Market
  | .score .. => .score
  | .halfFull .. => .halfFull
  | .handicap .. => .handicap
  | .total .. => .total
  | .result _ => .result
  | .other => .other

def key : Reading α → Text
  | .score home away => Text.ofNat home ++ '-' :: Text.ofNat away
  | .halfFull half full => half.key ++ '-' :: full.key
  | .handicap line outcome => lineText line ++ ':' :: outcome.key
  | .total direction line => direction.key ++ ':' :: lineText line
  | .result outcome => outcome.key
  | .other => []

end Reading

namespace Semantic

def market (s : Semantic α) : Market := s.reading.market

/-- The key under which equal bets compare equal; entries of another market are compared by their
names. -/
def key (s : Semantic α) : Text :=
  match s.reading with
  | .other => Text.compact s.name
  | reading => reading.key

end Semantic

end

end Wager
