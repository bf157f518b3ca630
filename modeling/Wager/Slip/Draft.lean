import Wager.Config.Basic
import Wager.Slip.Assignment
import Wager.Slip.Segment

/-!
# Drafts

A match as it was understood, with every value filled in, before anyone has confirmed it.
-/

namespace Wager

structure TeamMention where
  teamId : Text
  teamName : Text
  name : Text
  deriving DecidableEq, Repr

def TeamSpan.mention (hit : TeamSpan) : TeamMention := ⟨hit.teamId, hit.teamName, hit.name⟩

structure DraftPick (α : Type) where
  name : Text
  odds : Option α
  semantic : Option (Semantic α)
  deriving DecidableEq, Repr

structure Draft (α : Type) where
  home : Option TeamMention
  away : Option TeamMention
  entries : List (DraftPick α)
  conf : Int
  mode : Text
  tysHome : Text
  tysAway : Text
  fid : α
  fseHome : Int
  fseAway : Int
  /-- The price of a match without entries. -/
  fallbackOdds : Option α
  note : Text
  entryText : Text
  deriving DecidableEq, Repr

namespace Draft

section

variable {α : Type}

def homeTeam (d : Draft α) : Text := (d.home.map (·.teamName)).getD []

def awayTeam (d : Draft α) : Text := (d.away.map (·.teamName)).getD []

def someTeam (d : Draft α) : Text := if d.homeTeam.isEmpty then d.awayTeam else d.homeTeam

def hasTeam (d : Draft α) : Bool := d.home.isSome || d.away.isSome

def hasBothTeams (d : Draft α) : Bool := d.home.isSome && d.away.isSome

def hasNamedEntry (d : Draft α) : Bool := d.entries.any fun e => !e.name.isEmpty

def hasOdds (d : Draft α) : Bool := d.fallbackOdds.isSome || d.entries.any (·.odds.isSome)

/-- The prices go to the entries in order; without entries the first one stands for the match. -/
def price (entries : List (Semantic α)) (odds : List α) : List (DraftPick α) × Option α :=
  (entries.zipIdx.map fun (s, i) => ⟨s.name, odds[i]?, some s⟩,
    if entries.isEmpty then odds.head? else none)

end

variable {α : Type}

/-- The draft of a match: assigned values where there are some, else the defaults. -/
def ofMatch (config : Config α) (note : Text) (m : Fixture α) (p : FixtureValues α) : Draft α :=
  let (entries, fallbackOdds) := price m.entries p.odds
  { home := m.home.map TeamSpan.mention
    away := m.away.map TeamSpan.mention
    entries
    conf := p.conf.getD config.defaultConf
    mode := (p.mode.map Mode.label).getD config.defaultMode
    tysHome := (p.tysHome.map fun g => [g.code]).getD config.defaultTys
    tysAway := (p.tysAway.map fun g => [g.code]).getD config.defaultTys
    fid := p.fid.getD config.defaultFid
    fseHome := p.fseHome.getD config.defaultFse
    fseAway := p.fseAway.getD config.defaultFse
    fallbackOdds
    note
    entryText := m.entryText }

end Draft

end Wager
