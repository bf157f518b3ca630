import Wager.Slip.Draft
import Wager.Slip.Percent
import Wager.Text.Quoted

/-!
# Diagnostics

What a reader of a parsed slip should know: what could not be read, what is missing, and what was
guessed.  The score of a parse says how far its drafts can be trusted.
-/

namespace Wager

inductive Level where
  | info
  | warning
  | error
  deriving DecidableEq, Repr

def Level.name : Level → Text
  | .info => "info".toList
  | .warning => "warning".toList
  | .error => "error".toList

/-- A fact about a parsed slip.  Positions count matches from zero. -/
inductive Diagnostic where
  | emptySlip
  | confidence (remark : ConfidenceRemark)
  | noTeams
  | didYouMean (names : List Text)
  | mismatch (note : MismatchNote)
  | unread (index : Nat) (word : Text)
  | teamless (index : Nat)
  | oneTeam (index : Nat) (name : Text)
  | entryless (index : Nat)
  | unpriced (index : Nat)
  deriving DecidableEq, Repr

namespace Diagnostic

def level : Diagnostic → Level
  | .confidence _ | .unread .. => .warning
  | .noTeams | .teamless _ => .error
  | _ => .info

def index? : Diagnostic → Option Nat
  | .unread index _ | .teamless index | .oneTeam index _ | .entryless index | .unpriced index =>
    some index
  | _ => none

def matchLabel (index : Nat) : Text := "Match ".toList ++ Text.ofNat (index + 1)

def message : Diagnostic → Text
  | .emptySlip => "Input is empty".toList
  | .confidence remark => remark.message
  | .noTeams => "No team names recognized".toList
  | .didYouMean names => "Did you mean: ".toList ++ Text.join [',', ' '] names ++ ['?']
  | .mismatch note => note.message
  | .unread index word => matchLabel index ++ ": could not read ".toList ++ Text.quoted word
  | .teamless index => matchLabel index ++ ": no team recognized".toList
  | .oneTeam index name =>
    matchLabel index ++ ": only one team recognized (".toList ++ name ++
      "); add the opponent".toList
  | .entryless index => matchLabel index ++ ": no entry recognized; fill it in manually".toList
  | .unpriced index => matchLabel index ++ ": missing odds".toList

def ofDraft {α : Type} (index : Nat) (d : Draft α) (unknown : List Text) : List Diagnostic :=
  unknown.map (.unread index) ++
    (if !d.hasTeam then [.teamless index]
      else if !d.hasBothTeams then [.oneTeam index d.someTeam] else []) ++
    (if d.hasNamedEntry then [] else [.entryless index]) ++
    (if d.hasOdds then [] else [.unpriced index])

end Diagnostic

/-- How far some drafts can be trusted, in hundredths: 30 for any match, 25 when every match has a
team, 20 when every match has a named entry, 15 when every match has both teams and 10 without a
warning. -/
def trust {α : Type} (drafts : List (Draft α)) (levels : List Level) : Nat :=
  if drafts.isEmpty then 0
  else
    30 + (if drafts.all (·.hasTeam) then 25 else 0) +
      (if drafts.all (·.hasNamedEntry) then 20 else 0) +
      (if drafts.all (·.hasBothTeams) then 15 else 0) +
      (if levels.contains .warning then 0 else 10)

end Wager
