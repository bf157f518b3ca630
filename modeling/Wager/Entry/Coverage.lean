import Wager.Entry.Basic

/-!
# The results an entry covers

An entry may win on several results of its match: a double chance covers two.  Which ones is read
off its key and, failing that, its name.  Entries of a score, half-time, handicap or goals market
cover no result.
-/

namespace Wager

open Text

/-- The three texts of an entry that coverage is read from. -/
structure EntryLabels where
  market : Text
  key : Text
  name : Text

namespace EntryLabels

def ofDatum {α : Type} [Scalar α] (entry : Datum α) : EntryLabels :=
  ⟨trim (entry.field "market_type".toList).label, (entry.field "semantic_key".toList).label,
    (entry.field "name".toList).label⟩

def ofEntry {α : Type} [Scalar α] (r : Entry α) : EntryLabels :=
  ⟨r.semantic.market.name, r.semantic.key, r.name⟩

end EntryLabels

namespace Coverage

structure Pair where
  first : Outcome
  second : Outcome

/-- The double chances and the phrases that name them, blanks removed. -/
def phrases : List (Pair × List Text) := [
  (⟨.win, .draw⟩, ["胜平".toList, "平胜".toList, "主不败".toList, "1x".toList, "x1".toList,
    "winordraw".toList, "draworwin".toList, "homeordraw".toList, "draworhome".toList]),
  (⟨.draw, .lose⟩, ["平负".toList, "负平".toList, "客不败".toList, "x2".toList, "2x".toList,
    "draworlose".toList, "loseordraw".toList, "draworaway".toList, "awayordraw".toList]),
  (⟨.win, .lose⟩, ["胜负".toList, "负胜".toList, "12".toList, "21".toList, "winorlose".toList,
    "loseorwin".toList, "homeoraway".toList, "awayorhome".toList])]

def isListMark (c : Char) : Bool :=
  ['(', ')', '，', ',', '/', '|', '+', '&', ';', '、', '或', '和'].contains c

def add (found : List Outcome) (o : Outcome) : List Outcome :=
  if found.contains o then found else found ++ [o]

def ofPhrases (t : Text) : List Outcome :=
  let bare := compact t
  phrases.foldl (fun found (pair, spelled) =>
    if spelled.any (occursIn · bare) then add (add found pair.first) pair.second else found) []

def listWords (t : Text) : List Text :=
  words (replace "or".toList [' '] ((lower t).map fun c => if isListMark c then ' ' else c))

/-- The results a text names by phrases and words, in order of appearance.  Where there is neither,
single characters count. -/
def ofText (t : Text) : List Outcome :=
  let named := (listWords t).foldl (fun found word =>
    match Outcome.ofPoolSpelling? word with
    | some o => add found o
    | none => found) (ofPhrases t)
  if named.isEmpty then Outcome.all.filter fun o => t.contains o.character else named

/-- The results an entry covers, none when it is not about the result. -/
def ofLabels (labels : EntryLabels) : List Outcome :=
  let typed := !labels.market.isEmpty && labels.market != Market.result.name &&
    labels.market != Market.other.name
  if typed then []
  else
    let byKey := ofText labels.key
    if byKey.isEmpty then ofText labels.name else byKey

end Coverage

end Wager
