import Wager.Entry.Outcome
import Wager.Team.Dictionary

/-!
# Finding team names in text

A text is read from left to right.  At every position the longest acceptable name of the dictionary
is taken and reading goes on behind it.  Words for outcomes are never team names, and short or
multi-word Latin names have to stand apart from other letters and digits.
-/

namespace Wager

open Text

/-- A team name found in a text, from `start` up to but not including `stop`. -/
structure TeamSpan where
  teamId : Text
  teamName : Text
  name : Text
  start : Nat
  stop : Nat
  deriving DecidableEq, Repr

namespace Scan

def mustStandApart (name : Text) : Bool :=
  (name.length ≤ 4 && !name.isEmpty && name.all isLatinLetter) ||
    (name.contains ' ' && name.all fun c => isLatinLetter c || isBlank c)

/-- Whether an entry's name stands at the front of the text `rest` with lower case `low`, after the
character `before`. -/
def accepts (e : TeamAlias) (before : Option Char) (rest low : Text) : Bool :=
  e.lowered.isPrefixOf low && !e.lowered.isEmpty && !isReservedWord e.lowered &&
    (!mustStandApart e.name ||
      !(before.any Char.isAlphanum || (rest.drop e.length).head?.any Char.isAlphanum))

/-- The first entry that is accepted; in a dictionary it is the longest. -/
def entryAt? (dictionary : List TeamAlias) (before : Option Char) (rest low : Text) :
    Option TeamAlias :=
  dictionary.find? fun e => accepts e before rest low

/-- Reads on from position `pos`, where `skip` characters of the last name are still to come. -/
def hitsFrom (dictionary : List TeamAlias) (pos skip : Nat) (before : Option Char) :
    Text → Text → List TeamSpan
  | c :: rest, l :: low =>
    match skip with
    | skip + 1 => hitsFrom dictionary (pos + 1) skip (some c) rest low
    | 0 =>
      match entryAt? dictionary before (c :: rest) (l :: low) with
      | some e =>
        ⟨e.teamId, e.teamName, e.name, pos, pos + e.length⟩ ::
          hitsFrom dictionary (pos + 1) (e.length - 1) (some c) rest low
      | none => hitsFrom dictionary (pos + 1) 0 (some c) rest low
  | _, _ => []

def teamNames (t : Text) (dictionary : List TeamAlias) : List TeamSpan :=
  hitsFrom dictionary 0 0 none t (lowerInPlace t)

end Scan

end Wager
