import Wager.Team.Directory

/-!
# Alias dictionaries

All names of all teams, longer ones first.  A name that two teams share in lower case belongs to the
one that comes earlier.
-/

namespace Wager

structure TeamAlias where
  name : Text
  /-- The name in lower case. -/
  lowered : Text
  teamId : Text
  teamName : Text
  deriving DecidableEq, Repr

def TeamAlias.length (e : TeamAlias) : Nat := e.name.length

def TeamAlias.ofTeam {α : Type} (p : Team α) : List TeamAlias :=
  p.aliases.map fun name => ⟨name, Text.lower name, p.id, p.name⟩

namespace AliasDictionary

def distinctFrom (seen : List Text) : List TeamAlias → List TeamAlias
  | [] => []
  | e :: rest =>
    if seen.contains e.lowered then distinctFrom seen rest
    else e :: distinctFrom (e.lowered :: seen) rest

/-- Sorts entries by length, longer ones first and equal ones in order, and keeps each name once. -/
def ofAliases (entries : List TeamAlias) : List TeamAlias :=
  distinctFrom [] (entries.mergeSort fun a b => b.length ≤ a.length)

def ofTeams {α : Type} (teams : List (Team α)) : List TeamAlias :=
  ofAliases (teams.flatMap TeamAlias.ofTeam)

/-- The dictionary of a provider's rows, none of which may fail its checks. -/
def ofRows {α : Type} [Scalar α] [Coercion α] (rows : List (ProviderRow α)) :
    Except RowError (List TeamAlias) := do
  return ofTeams (← rows.mapM ProviderRow.toTeam)

end AliasDictionary

end Wager
