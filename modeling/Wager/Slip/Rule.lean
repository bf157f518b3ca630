import Wager.Text.Basic

/-!
# Assignment rules

Which of a slip's values belongs to which of its matches depends only on how many values and matches
there are.  A rule is chosen by these counts; the first rule whose condition holds applies.
-/

namespace Wager

/-- How single values are spread over matches. -/
inductive ScalarRule where
  | none
  | broadcast
  | positional
  | overlap
  deriving DecidableEq, Repr

namespace ScalarRule

def select (values games : Nat) : ScalarRule :=
  if values = 0 then .none
  else if values = 1 then .broadcast
  else if values = games then .positional
  else .overlap

def name : ScalarRule → Text
  | .none => "none".toList
  | .broadcast => "broadcast".toList
  | .positional => "positional".toList
  | .overlap => "overlap".toList

def spread {β : Type} (rule : ScalarRule) (values : List β) (games : Nat) : List (Option β) :=
  match rule with
  | .none => List.replicate games Option.none
  | .broadcast => List.replicate games values.head?
  | .positional | .overlap => (List.range games).map (values[·]?)

@[simp] theorem length_spread {β : Type} (rule : ScalarRule) (values : List β) (games : Nat) :
    (rule.spread values games).length = games := by
  cases rule <;> simp [spread]

end ScalarRule

/-- How values that name no side are spread over both sides of matches. -/
inductive PairRule where
  | none
  | broadcast
  | homeAway
  | consecutivePairs
  | partialPairs
  | perMatch
  deriving DecidableEq, Repr

namespace PairRule

def select (values games : Nat) : PairRule :=
  if values = 0 then .none
  else if values = 1 then .broadcast
  else if values = 2 ∧ games = 1 then .homeAway
  else if values = 2 * games then .consecutivePairs
  else if values % 2 = 0 then .partialPairs
  else .perMatch

def name : PairRule → Text
  | .none => "none".toList
  | .broadcast => "broadcast".toList
  | .homeAway => "home_away".toList
  | .consecutivePairs => "consecutive_pairs".toList
  | .partialPairs => "partial_pairs".toList
  | .perMatch => "per_match".toList

def spread {β : Type} (rule : PairRule) (values : List β) (games : Nat) :
    List (Option β × Option β) :=
  match rule with
  | .none => List.replicate games (Option.none, Option.none)
  | .broadcast => List.replicate games (values.head?, values.head?)
  | .homeAway | .consecutivePairs | .partialPairs =>
    (List.range games).map fun i => (values[2 * i]?, values[2 * i + 1]?)
  | .perMatch => (List.range games).map fun i => (values[i]?, values[i]?)

@[simp] theorem length_spread {β : Type} (rule : PairRule) (values : List β) (games : Nat) :
    (rule.spread values games).length = games := by
  cases rule <;> simp [spread]

def guess? : PairRule → Option Text
  | .partialPairs => some "partial pairs".toList
  | .perMatch => some "per match".toList
  | _ => Option.none

end PairRule

/-- How values for the two sides are spread: values that name their side are spread on their own and
go before the others. -/
inductive SideRule where
  | explicitSides
  | unmarked (rule : PairRule)
  deriving DecidableEq, Repr

namespace SideRule

/-- The rule for so many unmarked values and matches; `marked` says that others name their side. -/
def select (marked : Bool) (values games : Nat) : SideRule :=
  if marked then .explicitSides else .unmarked (PairRule.select values games)

def name : SideRule → Text
  | .explicitSides => "explicit_sides".toList
  | .unmarked rule => rule.name

end SideRule

inductive OddsRule where
  | none
  | perGroup
  | broadcast
  | positional
  | singleMatch
  | overlap
  deriving DecidableEq, Repr

namespace OddsRule

def select (groups values games : Nat) : OddsRule :=
  if values = 0 then .none
  else if groups = games then .perGroup
  else if values = 1 then .broadcast
  else if values = games then .positional
  else if games = 1 then .singleMatch
  else .overlap

def name : OddsRule → Text
  | .none => "none".toList
  | .perGroup => "per_group".toList
  | .broadcast => "broadcast".toList
  | .positional => "positional".toList
  | .singleMatch => "single_match".toList
  | .overlap => "overlap".toList

def spread {β : Type} (rule : OddsRule) (groups : List (List β)) (values : List β) (games : Nat) :
    List (List β) :=
  match rule with
  | .none => List.replicate games []
  | .perGroup => (List.range games).map fun i => groups[i]?.getD []
  | .broadcast => List.replicate games (values.take 1)
  | .positional | .overlap => (List.range games).map fun i => values[i]?.toList
  | .singleMatch => List.replicate games values

@[simp] theorem length_spread {β : Type} (rule : OddsRule) (groups : List (List β))
    (values : List β) (games : Nat) : (rule.spread groups values games).length = games := by
  cases rule <;> simp [spread]

end OddsRule

end Wager
