import Wager.Proofs.Team.Names
import Wager.Team.Dictionary

/-!
# The curated names

What all the names of the curated teams have in common.  The list is long and is gone through once,
here; what is said elsewhere about curated teams rests on it.  The sample slips name one team whose
only alias of its first character stands out among the curated ones.
-/

namespace Wager

open Text

namespace Parse

def wolves : TeamAlias := ⟨['狼', '队'], ['狼', '队'], "wolves".toList, ['狼', '队']⟩

def entryMarks : Text := ['胜', '大', '2', '.', '5']

def slipMarks : Text := '狼' :: '队' :: entryMarks

end Parse

def curatedKeys : List Text := teamLibrary.map fun t => nameKey t.name

theorem nodup_curatedKeys : curatedKeys.Nodup := by decide

namespace LibraryTeam

open Parse

/-- What the names of a curated team have in common with those of all the others. -/
structure WellSpelled (t : LibraryTeam) : Prop where
  named : trim t.name ≠ []
  short : t.name.length ≤ 6
  trimmed : ∀ raw ∈ t.name :: t.aliases, trim raw = raw
  undotted : ∀ raw ∈ t.name :: t.aliases, '\u0130' ∉ raw
  begins : ∀ raw ∈ t.name :: t.aliases, (lower raw).head?.any slipMarks.contains = true →
    t.id = wolves.teamId ∧ t.name = wolves.teamName ∧ raw = wolves.name

theorem wellSpelled {t : LibraryTeam} (ht : t ∈ teamLibrary) : t.WellSpelled := by
  have names : ∀ t ∈ teamLibrary, t.name ≠ [] ∧ t.name.length ≤ 6 ∧
      ∀ raw ∈ t.name :: t.aliases, trim raw = raw ∧ '\u0130' ∉ raw ∧
        ((lower raw).head?.any slipMarks.contains = true →
          t.id = wolves.teamId ∧ t.name = wolves.teamName ∧ raw = wolves.name) := by
    decide
  obtain ⟨named, short, each⟩ := names t ht
  have bare := (each t.name List.mem_cons_self).1
  constructor
  case named => rwa [bare]
  case short => exact short
  case trimmed => exact fun raw hr => (each raw hr).1
  case undotted => exact fun raw hr => (each raw hr).2.1
  case begins => exact fun raw hr => (each raw hr).2.2

theorem WellSpelled.mem_of_mem_aliases {α : Type} [Scalar α] {t : LibraryTeam} (h : t.WellSpelled)
    {name : Text} (hn : name ∈ (Team.ofLibrary t : Team α).aliases) :
    name ∈ t.name :: t.aliases := by
  obtain ⟨raw, hr, rfl⟩ := mem_distinctNamesFrom hn
  -- Names are trimmed when a curated team is made and again when its aliases are listed.
  have listed : ∃ x ∈ t.name :: t.aliases, raw = trim x := by
    rcases List.mem_cons.mp hr with rfl | hr
    · exact ⟨t.name, List.mem_cons_self, (h.trimmed t.name List.mem_cons_self).symm⟩
    · exact mem_distinctNamesFrom hr
  obtain ⟨x, hx, rfl⟩ := listed
  rwa [trim_trim, h.trimmed x hx]

end LibraryTeam

end Wager
