import Wager.StoredMatch
import Wager.Slip.Draft

/-!
# Storing drafts

A draft can be stored when all its values pass the checks of stored matches.  The entries are
checked first, one by one, and the first one with faults is reported alone.
-/

namespace Wager.Draft

variable {α : Type} [Scalar α]

/-- The stored entries of a draft; those without a name are left out. -/
def checkedEntries [Coercion α] (d : Draft α) : Checked (List (StoredEntry α)) :=
  (d.entries.filter (!·.name.isEmpty)).mapM fun e =>
    StoredEntry.ofFields (StoredEntry.fields ⟨e.name, e.odds⟩)

def fields (d : Draft α) : List (Text × Datum α) :=
  [ ("home_team".toList, .text d.homeTeam),
    ("away_team".toList, .text d.awayTeam),
    ("odds".toList, Datum.ofOption d.fallbackOdds),
    ("conf".toList, .int d.conf),
    ("mode".toList, .text d.mode),
    ("tys_home".toList, .text d.tysHome),
    ("tys_away".toList, .text d.tysAway),
    ("fid".toList, .real d.fid),
    ("fse_home".toList, .int d.fseHome),
    ("fse_away".toList, .int d.fseAway),
    ("note".toList, .text d.note) ]

def toStored [Coercion α] (d : Draft α) : Checked (StoredMatch α) := do
  StoredMatch.ofChecked (.ok (← d.checkedEntries)) d.fields

end Wager.Draft
