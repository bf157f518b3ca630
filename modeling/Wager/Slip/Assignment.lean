import Wager.Slip.Parameters
import Wager.Slip.Rule

/-!
# Assignment of parameters

A slip's parameters spread over its matches, field by field.  Where the counts do not fit, values
are assigned as far as they go and a note says so.
-/

namespace Wager

/-- The values assigned to one match; an absent one leaves the default. -/
structure FixtureValues (α : Type) where
  conf : Option Int
  mode : Option Mode
  fid : Option α
  fseHome : Option Int
  fseAway : Option Int
  tysHome : Option Tys
  tysAway : Option Tys
  odds : List α
  deriving DecidableEq, Repr

structure AssignmentRules where
  conf : ScalarRule
  fid : ScalarRule
  /-- Whether a mode was given to every match. -/
  hasMode : Bool
  fse : SideRule
  tys : SideRule
  odds : OddsRule
  deriving DecidableEq, Repr

def AssignmentRules.named (r : AssignmentRules) : List (Text × Text) :=
  [("conf".toList, r.conf.name), ("fid".toList, r.fid.name)] ++
    (if r.hasMode then [("mode".toList, "broadcast".toList)] else []) ++
    [("fse".toList, r.fse.name), ("tys".toList, r.tys.name), ("odds".toList, r.odds.name)]

structure MismatchNote where
  field : Text
  values : Nat
  games : Nat
  /-- How the values were assigned, if that needs to be said. -/
  guess : Option Text
  deriving DecidableEq, Repr

def MismatchNote.message (n : MismatchNote) : Text :=
  n.field ++ ": ".toList ++ Text.ofNat n.values ++ " value(s) for ".toList ++ Text.ofNat n.games ++
    " match(es)".toList ++
    match n.guess with
    | some guess => ", assigned by ".toList ++ guess
    | none => []

/-- The parameters of every match, with the rules and the notes.  Without matches there are no
rules. -/
structure Assignment (α : Type) where
  games : List (FixtureValues α)
  rules : Option AssignmentRules
  notes : List MismatchNote
  deriving DecidableEq, Repr

namespace Assignment

def boundPercent (n : Int) : Int := max 0 (min 100 n)

def scalarNotes {β : Type} (field : Text) (values : List β) (games : Nat) : List MismatchNote :=
  match ScalarRule.select values.length games with
  | .overlap => [⟨field, values.length, games, none⟩]
  | _ => []

def scalars {β : Type} (values : List β) (games : Nat) : List (Option β) :=
  (ScalarRule.select values.length games).spread values games

@[simp] theorem length_scalars {β : Type} (values : List β) (games : Nat) :
    (scalars values games).length = games := by simp [scalars]

/-- The values of both sides: those that name a side go before the others. -/
def sides {β : Type} (both home away : List β) (games : Nat) : List (Option β × Option β) :=
  ((PairRule.select both.length games).spread both games).zipWith
    (fun pair named => (named.1 <|> pair.1, named.2 <|> pair.2))
    ((scalars home games).zip (scalars away games))

@[simp] theorem length_sides {β : Type} (both home away : List β) (games : Nat) :
    (sides both home away games).length = games := by simp [sides]

def sideNotes {β : Type} (field : Text) (both home away : List β) (games : Nat) :
    List MismatchNote :=
  (match (PairRule.select both.length games).guess? with
    | some guess => [⟨field, both.length, games, some guess⟩]
    | none => []) ++
    scalarNotes (field ++ "_home".toList) home games ++
    scalarNotes (field ++ "_away".toList) away games

def oddsNotes {α : Type} (p : Parameters α) (games : Nat) : List MismatchNote :=
  match OddsRule.select p.oddsGroups.length p.odds.length games with
  | .overlap => [⟨"odds".toList, p.odds.length, games, none⟩]
  | _ => []

variable {α : Type}

def rulesFor (p : Parameters α) (games : Nat) : AssignmentRules where
  conf := ScalarRule.select p.conf.length games
  fid := ScalarRule.select p.fid.length games
  hasMode := p.mode.isSome
  fse := SideRule.select p.hasFseSides p.fse.length games
  tys := SideRule.select p.hasTysSides p.tys.length games
  odds := OddsRule.select p.oddsGroups.length p.odds.length games

def notesFor (p : Parameters α) (games : Nat) : List MismatchNote :=
  scalarNotes "conf".toList p.conf games ++ scalarNotes "fid".toList p.fid games ++
    sideNotes "fse".toList p.fse p.fseHome p.fseAway games ++
    sideNotes "tys".toList p.tys p.tysHome p.tysAway games ++ oddsNotes p games

/-- The parameters of each of a number of matches.  Percentages are brought into their range. -/
def valuesFor (p : Parameters α) (games : Nat) : List (FixtureValues α) :=
  let conf := scalars (p.conf.map boundPercent) games
  let fid := scalars p.fid games
  let fse :=
    sides (p.fse.map boundPercent) (p.fseHome.map boundPercent) (p.fseAway.map boundPercent) games
  let tys := sides p.tys p.tysHome p.tysAway games
  let odds :=
    (OddsRule.select p.oddsGroups.length p.odds.length games).spread p.oddsGroups p.odds games
  (List.range games).map fun i =>
    { conf := (conf[i]?).join
      mode := p.mode
      fid := (fid[i]?).join
      fseHome := (fse[i]?).bind (·.1)
      fseAway := (fse[i]?).bind (·.2)
      tysHome := (tys[i]?).bind (·.1)
      tysAway := (tys[i]?).bind (·.2)
      odds := (odds[i]?).getD [] }

@[simp] theorem length_valuesFor (p : Parameters α) (games : Nat) :
    (valuesFor p games).length = games := by simp [valuesFor]

def ofParameters (p : Parameters α) (games : Nat) : Assignment α :=
  if games = 0 then ⟨[], none, []⟩
  else ⟨valuesFor p games, some (rulesFor p games), notesFor p games⟩

@[simp] theorem length_games_ofParameters (p : Parameters α) (games : Nat) :
    (ofParameters p games).games.length = games := by
  by_cases h : games = 0 <;> simp [ofParameters, h]

end Assignment

end Wager
