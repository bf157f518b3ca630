import Wager.Text.Basic

/-!
# Markets

The kinds of bets an entry can be, with the label and the rank of each.  Of two equally frequent
markets the one with the lower rank is a match's main market.
-/

namespace Wager

inductive Market where
  | score
  | halfFull
  | handicap
  | total
  | result
  | other
  deriving DecidableEq, Repr

namespace Market

/-- All markets in the order in which entries are tried as them. -/
def all : List Market := [.score, .halfFull, .handicap, .total, .result, .other]

def name : Market → Text
  | .score => "score".toList
  | .halfFull => "half_full".toList
  | .handicap => "handicap".toList
  | .total => "total".toList
  | .result => "result".toList
  | .other => "other".toList

def label : Market → Text
  | .score => "比分".toList
  | .halfFull => "半全场".toList
  | .handicap => "让球".toList
  | .total => "大小球".toList
  | .result => "赛果".toList
  | .other => "其他".toList

/-- The rank that breaks ties between equally frequent markets. -/
def rank : Market → Nat
  | .score => 1
  | .halfFull => 2
  | .handicap => 3
  | .total => 4
  | .result => 5
  | .other => 99

def ofName (word : Text) : Market := (all.find? (·.name == word)).getD .other

@[simp] theorem ofName_name (m : Market) : ofName m.name = m := by
  cases m <;> rfl

end Market

end Wager
