import Wager.Team.Directory

/-!
# Suggestions

Names of teams that a misspelled text may have meant: the owners of the most similar names, each
once, the best first.
-/

namespace Wager

/-- A search for the names of a list that are similar to a text, given the similarity in percent
that is needed.  It answers their positions, the best first. -/
abbrev Suggestion.NameSearch := Text → Int → List Text → List Nat

/-- The search that suggestions rely on. -/
class SimilarNames where
  search : Suggestion.NameSearch

namespace Suggestion

variable {α : Type}

structure Choice where
  name : Text
  owner : Text
  deriving DecidableEq, Repr

def choices (directory : List (Team α)) : List Choice :=
  directory.flatMap fun p => p.aliases.map fun a => ⟨Text.lower a, p.name⟩

/-- Collects owners, each once, until there are `limit` of them. -/
def collect (limit : Int) (found : List Text) : List Text → List Text
  | [] => found
  | owner :: rest =>
    let found := if found.contains owner then found else found ++ [owner]
    if limit ≤ found.length then found else collect limit found rest

def namesBy (search : NameSearch) (fragment : Text) (directory : List (Team α))
    (limit cutoff : Int) : List Text :=
  let query := nameKey fragment
  let offered := choices directory
  if query.isEmpty || offered.isEmpty then []
  else
    let positions := search query cutoff (offered.map (·.name))
    collect limit [] (positions.filterMap fun i => offered[i]?.map (·.owner))

def usualCutoff : Int := 80

def names [SimilarNames] (fragment : Text) (directory : List (Team α)) (limit cutoff : Int) :
    List Text :=
  namesBy SimilarNames.search fragment directory limit cutoff

end Suggestion

end Wager
