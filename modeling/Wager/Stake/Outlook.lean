import Wager.Fid
import Wager.StoredMatch
import Wager.Odds
import Wager.Distribution.Match
import Wager.Slip.Draft

/-!
# The outlook of a match

How likely it is that some entry of a match hits, estimated from what was said about the match: the
confidence is lifted or damped by the mode, the TYS grades, the FID rung and the agreement of the
FSE values.
-/

namespace Wager

/-- A match as sizing sees it.  Its values may come from anywhere, so they are loosely typed. -/
structure SizedMatch (α : Type) where
  conf : Datum α
  mode : Datum α
  tysHome : Datum α
  tysAway : Datum α
  fid : Datum α
  fseHome : Datum α
  fseAway : Datum α
  /-- The entries' names and odds. -/
  entries : List (Datum α × Datum α)
  /-- The price of the match as a whole; the second one counts when the first is nothing. -/
  fallbackOdds : Datum α
  odds : Datum α

/-- What the chance of a match is estimated from, each value read as what it stands for. -/
structure Outlook (α : Type) where
  /-- Confidence and FSE values are percentages. -/
  conf : α
  mode : Option Mode
  tysHome : Option Tys
  tysAway : Option Tys
  fid : Option α
  fseHome : α
  fseAway : α
  deriving DecidableEq, Repr

variable {α : Type} [Scalar α]

namespace SizedMatch

def ofFields (fields : List (Text × Datum α)) : SizedMatch α :=
  let get (name : Text) (standIn : Datum α) := (fields.lookup name).getD standIn
  { conf := get "conf".toList (.int 50)
    mode := get "mode".toList .null
    tysHome := get "tys_home".toList (.text ['M'])
    tysAway := get "tys_away".toList (.text ['M'])
    fid := get "fid".toList (.real Fid.middle)
    fseHome := get "fse_home".toList (.int 50)
    fseAway := get "fse_away".toList (.int 50)
    entries := (get "entries".toList .null).elements.map fun e =>
      (e.field "name".toList, e.field "odds".toList)
    fallbackOdds := get "fallback_odds".toList .null
    odds := get "odds".toList .null }

def ofStored (r : StoredMatch α) : SizedMatch α where
  conf := .int r.conf
  mode := .text r.mode.label
  tysHome := .text [r.tysHome.code]
  tysAway := .text [r.tysAway.code]
  fid := .real r.fid
  fseHome := .int r.fseHome
  fseAway := .int r.fseAway
  entries := r.entries.map fun e => (.text e.name, Datum.ofOption e.odds)
  fallbackOdds := .null
  odds := Datum.ofOption r.odds

def ofDraft (d : Draft α) : SizedMatch α where
  conf := .int d.conf
  mode := .text d.mode
  tysHome := .text d.tysHome
  tysAway := .text d.tysAway
  fid := .real d.fid
  fseHome := .int d.fseHome
  fseAway := .int d.fseAway
  entries := d.entries.map fun e => (.text e.name, Datum.ofOption e.odds)
  fallbackOdds := Datum.ofOption d.fallbackOdds
  odds := .null

def modeOf : Datum α → Option Mode
  | .text t => Mode.ofLabel? t
  | _ => none

def tysOf : Datum α → Option Tys
  | .text t => Tys.ofCode? t
  | _ => none

def outlook (m : SizedMatch α) : Except Datum.Overflow (Outlook α) := do
  return {
    conf := ← m.conf.numberOr 50.0
    mode := modeOf m.mode
    tysHome := tysOf m.tysHome
    tysAway := tysOf m.tysAway
    fid := ← m.fid.number?
    fseHome := ← m.fseHome.numberOr 50.0
    fseAway := ← m.fseAway.numberOr 50.0 }

def pricedEntries (m : SizedMatch α) : Except Datum.Overflow (List (Datum α)) := do
  let read ← m.entries.mapM fun (name, odds) => return (name, ← odds.number?)
  return read.filterMap fun (name, odds) =>
    match odds with
    | some x =>
      if !name.isVoid && Odds.isUsable x then
        some (.object [("name".toList, name), ("odds".toList, .real x)])
      else none
    | none => none

end SizedMatch

namespace Outlook

def confWeight : α := 0.45

def modeWeight : α := 0.16

def tysWeight : α := 0.12

def fidWeight : α := 0.14

def fseWeight : α := 0.07

/-- The confidence as a factor: one at fifty percent. -/
def confFactor (o : Outlook α) : α :=
  Scalar.clamp (Scalar.clamp (o.conf / 100.0) 0.05 0.95 / 0.5) 0.15 1.95

def modeFactor (o : Outlook α) : α := (o.mode.map Mode.factor).getD 1.0

def gradeFactor (g : Option Tys) : α := (g.map Tys.factor).getD 1.0

def tysFactor (o : Outlook α) : α := (gradeFactor o.tysHome + gradeFactor o.tysAway) / 2.0

def fseShare (percent : α) : α := Scalar.clamp percent 0.0 100.0 / 100.0

def fseFactor (o : Outlook α) : α :=
  Scalar.clamp (0.85 + Scalar.sqrt (fseShare o.fseHome * fseShare o.fseAway) * 0.3) 0.72 1.35

def lift (o : Outlook α) : α :=
  Scalar.pow o.confFactor confWeight * Scalar.pow o.modeFactor modeWeight *
    Scalar.pow o.tysFactor tysWeight * Scalar.pow (Fid.factor o.fid) fidWeight *
    Scalar.pow o.fseFactor fseWeight

def probability (o : Outlook α) : α := Scalar.clamp (0.5 * o.lift) 0.05 0.95

end Outlook

namespace SizedMatch

def probability (m : SizedMatch α) : Except Datum.Overflow α := do return (← m.outlook).probability

/-- The distribution of the match.  Without usable entries it is one entry at the price of the
match, or at `defaultOdds`. -/
def distribution (m : SizedMatch α) (defaultOdds : α) :
    Except Datum.Overflow (MatchDistribution α) := do
  let fallback ← (m.fallbackOdds.orElse m.odds).numberOr defaultOdds
  let entries ← m.pricedEntries
  let chance ← m.probability
  MatchDistribution.build entries (.real chance) (.real fallback) none

end SizedMatch

end Wager
