import Wager.Slip.Diagnostic
import Wager.Slip.Extraction
import Wager.Team.Cache
import Wager.Team.Suggestion
import Wager.Text.Normalize

/-!
# Parsing slips

A slip is normalized, its parameters are taken out, team names are found in what remains, the
segments between them are grouped into matches and the parameters are assigned to these.  No text
fails to parse: what cannot be placed becomes a diagnostic.
-/

namespace Wager

open Text

structure Parse (α : Type) where
  drafts : List (Draft α)
  diagnostics : List Diagnostic
  /-- The trust in the drafts, in hundredths. -/
  trust : Nat
  /-- The parameters, absent for an empty slip. -/
  params : Option (Parameters α)
  /-- The rules that assigned them, absent without a match. -/
  rules : Option AssignmentRules
  deriving DecidableEq, Repr

namespace Parse

variable {α : Type}

def empty : Parse α := ⟨[], [.emptySlip], 0, none, none⟩

def errorCount (p : Parse α) : Nat := p.diagnostics.countP fun d => d.level == .error

def isFragmentMark (c : Char) : Bool := isBlank c || c == ',' || c == ';' || c == '/' || c == '|'

def suggestions [SimilarNames] (residual : Text) (directory : List (Team α)) : List Text :=
  let fragments := (splitWhere isFragmentMark residual).filter fun f => 2 ≤ f.length
  (fragments.flatMap fun f => Suggestion.names f directory 3 Suggestion.usualCutoff).foldl
    (fun found name => if found.contains name then found else found ++ [name]) []

def draftsOf (config : Config α) (note : Text) (found : List (Fixture α))
    (assigned : List (FixtureValues α)) : List (Draft α × List Diagnostic) :=
  (found.zip assigned).zipIdx.map fun ((m, p), i) =>
    let draft := Draft.ofMatch config note m p
    (draft, Diagnostic.ofDraft i draft m.unknown)

def teamless [SimilarNames] (e : Extraction α) (directory : List (Team α)) : Parse α :=
  let names := suggestions e.residual directory
  { drafts := []
    diagnostics :=
      e.remarks.map .confidence ++
        .noTeams :: if names.isEmpty then [] else [.didYouMean names]
    trust := 0
    params := some e.params
    rules := none }

def ofMatches (config : Config α) (e : Extraction α) (found : List (Fixture α)) : Parse α :=
  let assignment := Assignment.ofParameters e.params found.length
  let drafts := draftsOf config e.params.remark found assignment.games
  let diagnostics :=
    e.remarks.map .confidence ++ assignment.notes.map .mismatch ++ drafts.flatMap (·.2)
  { drafts := drafts.map (·.1)
    diagnostics
    trust := Wager.trust (drafts.map (·.1)) (diagnostics.map (·.level))
    params := some e.params
    rules := assignment.rules }

variable [Scalar α]

def ofContent [SimilarNames] (t : Text) (dictionary : List TeamAlias)
    (directory : List (Team α)) (config : Config α) : Parse α :=
  let e : Extraction α := Extraction.ofText (normalize t)
  let hits := Scan.teamNames e.residual dictionary
  if hits.isEmpty then teamless e directory
  else ofMatches config e (Fixture.list (Segment.list e.residual hits))

def isEmptySlip (t : Text) : Bool := t.all isBlank

/-- Parses a slip with a dictionary; suggestions come from the directory. -/
def ofText [SimilarNames] (t : Text) (dictionary : List TeamAlias)
    (directory : List (Team α)) (config : Config α) : Parse α :=
  if isEmptySlip t then empty else ofContent t dictionary directory config

/-- Parses a slip with a cached dictionary.  A slip without content leaves the cache alone. -/
def ofCached [SimilarNames] [Coercion α] {ε : Type} (t : Text) (cache : AliasCache α) (now : α)
    (provider : Except ε (List (ProviderRow α))) (config : Config α) :
    AliasCache.Reading ε α (Parse α) :=
  if isEmptySlip t then ⟨.ok empty, cache, false⟩
  else cache.read now provider fun c => ofContent t c.entries c.directory config

def ofLibrary [SimilarNames] (t : Text) (config : Config α) : Parse α :=
  ofText t (AliasDictionary.ofTeams (Directory.library : List (Team α))) Directory.library config

end Parse

end Wager
