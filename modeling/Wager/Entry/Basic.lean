import Wager.Entry.Reader
import Wager.Odds

/-!
# Entries

An entry with its meaning and its price, read from a text, from a mapping or from nothing usable;
the entries of a match, given as a list or as one text; and the market most of them belong to.
-/

namespace Wager

/-- An entry's meaning and its odds, absent when no number was given for them. -/
structure Entry (α : Type) where
  semantic : Semantic α
  odds : Option α
  deriving DecidableEq, Repr

namespace Entry

variable {α : Type} [Scalar α]

def name (e : Entry α) : Text := e.semantic.name

def isPriced (e : Entry α) : Bool := e.odds.any Odds.isUsable

def fields : Datum α → Text × Datum α
  | .text t => (t, .null)
  | .object fs =>
    let d := Datum.object fs
    (((d.field "name".toList).orElse (d.field "entry".toList)).label, d.field "odds".toList)
  | _ => ([], .null)

/-- The entry that a value describes; odds that are no number are replaced by the fallback. -/
def ofDatum (entry fallback : Datum α) : Except Datum.Overflow (Entry α) := do
  let (name, odds) := fields entry
  let standIn ← fallback.number?
  return ⟨Semantic.ofText name, (← odds.number?) <|> standIn⟩

/-- The named entries of a match.  Without entries the text is cut at bars and commas and
every piece is an entry at the fallback odds. -/
def list (entries : List (Datum α)) (text : Text) (fallback : Datum α) :
    Except Datum.Overflow (List (Entry α)) := do
  let items :=
    if entries.isEmpty then
      ((Text.splitWhere (fun c => c == '|' || c == ',') (Text.normalizeName text)).map
        Text.trim).filterMap fun piece => if piece.isEmpty then none else some (.text piece)
    else entries
  return (← items.mapM (ofDatum · fallback)).filter (!·.name.isEmpty)

end Entry

/-- The market that most entries of a match belong to, with the key of its first entry. -/
structure MainMarket where
  market : Market
  key : Text
  deriving DecidableEq, Repr

namespace MainMarket

variable {α : Type} [Scalar α]

def count (entries : List (Entry α)) (m : Market) : Nat :=
  entries.countP fun e => e.semantic.market == m

/-- Whether a market stands before another one: more entries, or as many and a lower rank. -/
def precedes (entries : List (Entry α)) (a b : Market) : Bool :=
  count entries b < count entries a || (count entries a == count entries b && a.rank < b.rank)

def ofEntries : List (Entry α) → MainMarket
  | [] => ⟨.other, []⟩
  | first :: rest =>
    let entries := first :: rest
    let best := rest.foldl (fun best e =>
      if precedes entries e.semantic.market best then e.semantic.market else best)
      first.semantic.market
    let key := ((entries.find? fun e => e.semantic.market == best).map (·.semantic.key)).getD []
    ⟨best, key⟩

end MainMarket

end Wager
