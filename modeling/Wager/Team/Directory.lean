import Wager.Team.Basic

/-!
# Team directories

A directory starts with the curated teams and takes in the rows of a provider one by one.  A row
that names a team already there is merged into it: the identifier, the samples and the rating are
the row's, the canonical name stays, and names of both sides are kept.  Rows that fail their checks
are left out.  Teams are looked up by exact name or ranked for a search box.
-/

namespace Wager

open Text

/-- The teams of a directory in order, each under the key of its name. -/
abbrev KeyedTeams (α : Type) := List (Text × Team α)

namespace Team

variable {α : Type}

def alone (p : Team α) : Team α :=
  { p with abbreviations := distinctNames (p.name :: p.abbreviations) }

/-- A row merged into a team that is there already. -/
def mergeInto (p known : Team α) : Team α :=
  { p with
    name := if known.name.isEmpty then p.name else known.name
    abbreviations :=
      distinctNames ([known.name, p.name] ++ known.abbreviations ++ p.abbreviations) }

end Team

namespace Directory

section

variable {α : Type}

def absorb (teams : KeyedTeams α) (p : Team α) : KeyedTeams α :=
  let key := nameKey p.name
  match teams.lookup key with
  | none => teams ++ [(key, p.alone)]
  | some _ => teams.map fun (k, known) => if k == key then (k, p.mergeInto known) else (k, known)

def find? (query : Text) (directory : List (Team α)) : Option (Team α) :=
  let key := nameKey query
  if key.isEmpty then none
  else directory.find? fun p => p.aliases.any fun a => nameKey a == key

/-- How well a team's names answer a query: one is the query, begins with it, or holds it. -/
def score (key : Text) (p : Team α) : Nat :=
  let names := p.aliases.map nameKey
  (if names.any (· == key) then 12 else 0) + (if names.any (key.isPrefixOf ·) then 4 else 0) +
    (if names.any (occursIn key ·) then 1 else 0)

/-- Whether one scored team is listed before another: by score, then samples, then length of
name. -/
def listedBefore (a b : Nat × Team α) : Bool :=
  if a.1 != b.1 then b.1 < a.1
  else if a.2.totalSamples != b.2.totalSamples then b.2.totalSamples < a.2.totalSamples
  else a.2.name.length ≤ b.2.name.length

/-- The first `limit` items; a negative limit leaves that many out at the end. -/
def takeLimit {β : Type} (limit : Int) (items : List β) : List β :=
  if 0 ≤ limit then items.take limit.toNat else items.take (items.length - limit.natAbs)

def search (query : Text) (directory : List (Team α)) (limit : Int) :
    List (Team α) :=
  let key := nameKey query
  if key.isEmpty then []
  else
    let scored := directory.filterMap fun p =>
      let s := score key p
      if s == 0 then none else some (s, p)
    (takeLimit limit (scored.mergeSort listedBefore)).map fun (_, p) => p

end

variable {α : Type} [Scalar α]

def library : List (Team α) := teamLibrary.map Team.ofLibrary

def keyed (teams : List (Team α)) : KeyedTeams α := teams.map fun p => (nameKey p.name, p)

def absorbRow [Coercion α] (teams : KeyedTeams α) (row : ProviderRow α) :
    Except RowError (KeyedTeams α) :=
  match row.toTeam with
  | .ok p => .ok (absorb teams p)
  | .error (.invalid _) => .ok teams
  | .error e => .error e

def build [Coercion α] (rows : List (ProviderRow α)) : Except RowError (List (Team α)) := do
  return (← rows.foldlM absorbRow (keyed library)).map fun (_, p) => p

end Directory

end Wager
