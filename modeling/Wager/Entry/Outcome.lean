import Wager.Text.Casing

/-!
# Outcomes and directions

The three results of a match and the two sides of a goals line, each with the spellings under which
it is typed.
-/

namespace Wager

inductive Outcome where
  | win
  | draw
  | lose
  deriving DecidableEq, Repr

namespace Outcome

def all : List Outcome := [.win, .draw, .lose]

def key : Outcome → Text
  | .win => "win".toList
  | .draw => "draw".toList
  | .lose => "lose".toList

def label : Outcome → Text
  | .win => "主胜".toList
  | .draw => "平".toList
  | .lose => "客胜".toList

def character : Outcome → Char
  | .win => '胜'
  | .draw => '平'
  | .lose => '负'

/-- The digit that stands for an outcome on pool coupons. -/
def poolDigit : Outcome → Char
  | .win => '1'
  | .draw => '0'
  | .lose => '2'

def spellings : Outcome → List Text
  | .win => ["w".toList, "win".toList, "home".toList, "homewin".toList, "h".toList, "主胜".toList,
      "主".toList, "胜".toList]
  | .draw => ["d".toList, "draw".toList, "x".toList, "平".toList, "平局".toList]
  | .lose => ["l".toList, "lose".toList, "away".toList, "awaywin".toList, "a".toList,
      "客胜".toList, "客".toList, "负".toList]

def ofSpelling? (word : Text) : Option Outcome := all.find? fun o => o.spellings.contains word

/-- The outcome a word spells, whatever its letter case and inner blanks. -/
def ofToken? (word : Text) : Option Outcome := ofSpelling? (Text.compact word)

def ofPoolSpelling? (word : Text) : Option Outcome :=
  all.find? fun o => o.spellings.contains word || word == [o.poolDigit]

end Outcome

inductive Direction where
  | over
  | under
  deriving DecidableEq, Repr

namespace Direction

def all : List Direction := [.over, .under]

def key : Direction → Text
  | .over => "over".toList
  | .under => "under".toList

def spellings : Direction → List Text
  | .over => ["over".toList, "o".toList, "大".toList, "大球".toList]
  | .under => ["under".toList, "u".toList, "小".toList, "小球".toList]

/-- The spellings that may stand directly at a number. -/
def shortSpellings : Direction → List Text
  | .over => ["over".toList, "o".toList, "大".toList]
  | .under => ["under".toList, "u".toList, "小".toList]

def ofToken? (word : Text) : Option Direction :=
  all.find? fun d => d.spellings.contains (Text.compact word)

def ofShortSpelling? (word : Text) : Option Direction :=
  all.find? fun d => d.shortSpellings.contains (Text.lower word)

end Direction

/-- Whether a lower-case word spells an outcome or a direction, so that it names no team. -/
def isReservedWord (word : Text) : Bool :=
  (Outcome.ofSpelling? word).isSome || Direction.all.any fun d => d.spellings.contains word

end Wager
