import Wager.Check.Basic
import Wager.Fid
import Wager.Mode
import Wager.Tys

/-!
# Stored matches

The shape in which confirmed matches are stored, and the checks that everything stored has passed.
`StoredMatch.fields` writes a match as fields and `StoredMatch.ofFields` checks fields; the former
are always accepted by the latter.
-/

namespace Wager

structure StoredEntry (α : Type) where
  name : Text
  odds : Option α
  deriving DecidableEq, Repr

structure StoredMatch (α : Type) where
  /-- The identifier, given when the match is stored. -/
  id : Option Text
  homeTeam : Text
  awayTeam : Text
  entries : List (StoredEntry α)
  /-- The price of the match as a whole. -/
  odds : Option α
  conf : Int
  mode : Mode
  tysHome : Tys
  tysAway : Tys
  fid : α
  fseHome : Int
  fseAway : Int
  note : Text
  deriving DecidableEq, Repr

variable {α : Type} [Scalar α]

namespace StoredEntry

def nameLimit : Nat := 60

def checkName [Coercion α] (d : Datum α) : Checked Text := do
  Check.atMost nameLimit (← Check.atLeast 1 (← Coercion.text d))

def ofFields [Coercion α] (fields : List (Text × Datum α)) : Checked (StoredEntry α) :=
  let name := Check.required fields "name".toList checkName
  let odds := Check.fieldOr fields "odds".toList none (Check.optional Check.odds)
  match name.faults ++ odds.faults with
  | [] => do return ⟨← name, ← odds⟩
  | found => .error found

def ofDatum [Coercion α] : Datum α → Checked (StoredEntry α)
  | .object fields => ofFields fields
  | _ => .fail (.notInstance "EntryRecord")

def fields (e : StoredEntry α) : List (Text × Datum α) :=
  [("name".toList, .text e.name), ("odds".toList, Datum.ofOption e.odds)]

end StoredEntry

namespace StoredMatch

def teamLimit : Nat := 60

def noteLimit : Nat := 1000

def entryText (r : StoredMatch α) : Text := Text.join [',', ' '] (r.entries.map (·.name))

section

variable [Coercion α]

def checkTeam (d : Datum α) : Checked Text := do Check.atMost teamLimit (← Coercion.text d)

def checkNote (d : Datum α) : Checked Text := do Check.atMost noteLimit (← Coercion.text d)

def checkPercent (d : Datum α) : Checked Int := do Check.percent (← Coercion.integer d)

def checkMode (d : Datum α) : Checked Mode := do
  let t ← Coercion.text d
  match Mode.ofLabel? t with
  | some m => .ok m
  | none =>
    .fail (.rule ("mode=" ++ String.ofList (Text.quoted t) ++ " is not one of " ++
      String.ofList (Text.join [',', ' '] (Mode.all.map Mode.label))))

def checkTys (d : Datum α) : Checked Tys :=
  match Tys.ofCode? (Text.upper (Text.trim d.label)) with
  | some g => .ok g
  | none =>
    .fail (.rule ("tys=" ++ String.ofList d.literal ++ " must be one of S, M, L, H"))

/-- A FID value on a rung, which takes its place. -/
def checkFid (d : Datum α) : Checked α := do
  let x ← Coercion.number d
  match Fid.rungOf? x with
  | some rung => .ok rung
  | none =>
    .fail (.rule ("fid=" ++ String.ofList (Scalar.text x) ++ " is not on the FID ladder (" ++
      Fid.rungsText ++ ")"))

def checkEntries : Datum α → Checked (List (StoredEntry α))
  | .list items => Checked.all (items.map StoredEntry.ofDatum)
  | _ => .fail .notList

def ofChecked (entries : Checked (List (StoredEntry α))) (fields : List (Text × Datum α)) :
    Checked (StoredMatch α) :=
  let id := Check.fieldOr fields "id".toList none (Check.optional Coercion.text)
  let homeTeam := Check.fieldOr fields "home_team".toList [] checkTeam
  let awayTeam := Check.fieldOr fields "away_team".toList [] checkTeam
  let odds := Check.fieldOr fields "odds".toList none (Check.optional Check.odds)
  let conf := Check.fieldOr fields "conf".toList 50 checkPercent
  let mode := Check.fieldOr fields "mode".toList Mode.standard checkMode
  let tysHome := Check.fieldOr fields "tys_home".toList Tys.medium checkTys
  let tysAway := Check.fieldOr fields "tys_away".toList Tys.medium checkTys
  let fid := Check.fieldOr fields "fid".toList Fid.middle checkFid
  let fseHome := Check.fieldOr fields "fse_home".toList 50 checkPercent
  let fseAway := Check.fieldOr fields "fse_away".toList 50 checkPercent
  let note := Check.fieldOr fields "note".toList [] checkNote
  match id.faults ++ homeTeam.faults ++ awayTeam.faults ++ entries.faults ++ odds.faults ++
      conf.faults ++ mode.faults ++ tysHome.faults ++ tysAway.faults ++ fid.faults ++
      fseHome.faults ++ fseAway.faults ++ note.faults with
  | [] => do
    return { id := ← id, homeTeam := ← homeTeam, awayTeam := ← awayTeam, entries := ← entries,
             odds := ← odds, conf := ← conf, mode := ← mode, tysHome := ← tysHome,
             tysAway := ← tysAway, fid := ← fid, fseHome := ← fseHome, fseAway := ← fseAway,
             note := ← note }
  | found => .error found

def ofFields (fields : List (Text × Datum α)) : Checked (StoredMatch α) :=
  ofChecked (Check.fieldOr fields "entries".toList [] checkEntries) fields

def ofDatum : Datum α → Checked (StoredMatch α)
  | .object fields => ofFields fields
  | _ => .fail (.notInstance "MatchRecord")

end

def fields (r : StoredMatch α) : List (Text × Datum α) :=
  [ ("id".toList, (r.id.map Datum.text).getD .null),
    ("home_team".toList, .text r.homeTeam),
    ("away_team".toList, .text r.awayTeam),
    ("entries".toList, .list (r.entries.map fun e => .object e.fields)),
    ("odds".toList, Datum.ofOption r.odds),
    ("conf".toList, .int r.conf),
    ("mode".toList, .text r.mode.label),
    ("tys_home".toList, .text [r.tysHome.code]),
    ("tys_away".toList, .text [r.tysAway.code]),
    ("fid".toList, .real r.fid),
    ("fse_home".toList, .int r.fseHome),
    ("fse_away".toList, .int r.fseAway),
    ("note".toList, .text r.note) ]

end StoredMatch

end Wager
