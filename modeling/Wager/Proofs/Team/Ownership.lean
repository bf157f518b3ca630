import Wager.Proofs.Scalar.Rational
import Wager.Proofs.Team.Dictionary
import Wager.Proofs.Team.Directory

/-!
# Who owns an alias

A curated alias belongs to the first curated team that is known by it.  New teams stand behind the
curated ones and cannot take it; but a row that names a curated team adds its aliases at the place
of that team, which may be in front of the owner.
-/

namespace Wager

open Text

namespace AliasDictionary

section

variable {α : Type}

/-- Whether a name is one spelling of the lower-case name `k` in full length. -/
def spells (k name : Text) : Bool := lower name == k && name.length == k.length

def aliasOf (p : Team α) (name : Text) : TeamAlias := ⟨name, lower name, p.id, p.name⟩

/-- The owner of a lower-case name: the first team with a spelling of it in full length. -/
def owner? (teams : List (Team α)) (k : Text) : Option Text :=
  teams.findSome? fun p => (p.aliases.find? (spells k)).map fun _ => p.name

theorem owner?_cons (p : Team α) (teams : List (Team α)) (k : Text) :
    owner? (p :: teams) k =
      if (p.aliases.find? (spells k)).isSome then some p.name else owner? teams k := by
  rw [owner?, List.findSome?_cons]
  cases p.aliases.find? (spells k) with
  | none => rfl
  | some x => rfl

theorem owner?_append (front back : List (Team α)) (k : Text) :
    owner? (front ++ back) k = (owner? front k).or (owner? back k) :=
  List.findSome?_append

theorem owner?_eq (teams : List (Team α)) (k : Text) :
    owner? teams k = ((teams.flatMap TeamAlias.ofTeam).find?
      fun e => e.lowered == k && e.length == k.length).map (·.teamName) := by
  have team (p : Team α) : (TeamAlias.ofTeam p).find?
      (fun e => e.lowered == k && e.length == k.length) =
        (p.aliases.find? (spells k)).map (aliasOf p) := by
    rw [TeamAlias.ofTeam, List.find?_map]
    rfl
  rw [owner?, List.find?_flatMap, List.map_findSome?]
  congr 1
  funext p
  rw [Function.comp_apply, team, Option.map_map]
  rfl

theorem aligned_flatMap (teams : List (Team α)) :
    Aligned (teams.flatMap TeamAlias.ofTeam) := by
  intro e he
  obtain ⟨p, _, hp⟩ := List.mem_flatMap.mp he
  exact aligned_ofTeam p e hp

theorem teamOf?_ofTeams {teams : List (Team α)} {name owner : Text}
    (h : owner? teams (nameKey name) = some owner) :
    teamOf? (ofTeams teams) name = some owner := by
  rw [owner?_eq] at h
  obtain ⟨e, found, he⟩ := Option.map_eq_some_iff.mp h
  rw [teamOf?, ofTeams, find?_ofAliases (aligned_flatMap teams) found, Option.map_some, he]

def FullLength (p : Team α) : Prop := ∀ name ∈ p.aliases, name.length = (lower name).length

theorem spells_iff {p : Team α} (full : FullLength p) {k name : Text} (hn : name ∈ p.aliases) :
    spells k name = true ↔ lower name = k := by
  simp only [spells, Bool.and_eq_true, beq_iff_eq]
  constructor
  · exact And.left
  · rintro rfl
    exact ⟨rfl, full name hn⟩

theorem find?_spells_isSome {p : Team α} (full : FullLength p) (k : Text) :
    (p.aliases.find? (spells k)).isSome = true ↔ k ∈ p.aliases.map lower := by
  rw [List.find?_isSome, List.mem_map]
  constructor
  · rintro ⟨name, hn, hs⟩
    exact ⟨name, hn, (spells_iff full hn).mp hs⟩
  · rintro ⟨name, hn, hk⟩
    exact ⟨name, hn, (spells_iff full hn).mpr hk⟩

/-- A row takes an alias over for a curated team: it names that team and lists the alias, which is
none of the team's own. -/
structure TakesOver (row curated : Team α) (k : Text) : Prop where
  names : nameKey row.name = nameKey curated.name
  foreign : k ∉ curated.aliases.map lower
  lists : k ∈ row.abbreviations.map nameKey

/-- Rows leave an alias with its owner or take it over for a team in front of the owner. -/
theorem owner?_grown {rows curated : List (Team α)} {front : List (Text × Team α)}
    (grown : List.Forall₂ (Directory.Grown rows) curated front)
    (full : ∀ p ∈ curated, FullLength p) {k owner : Text} (h : owner? curated k = some owner) :
    owner? (front.map (·.2)) k = some owner ∨ ∃ p ∈ curated,
      owner? (front.map (·.2)) k = some p.name ∧ ∃ row ∈ rows, TakesOver row p k := by
  induction grown with
  | nil => cases h
  | @cons p entry curated front hg _ ih =>
    obtain ⟨more, aliases, origin⟩ := hg.aliases_eq
    have own := find?_spells_isSome (full p List.mem_cons_self) k
    rw [List.map_cons, owner?_cons, aliases, hg.name_eq, List.find?_append]
    rw [owner?_cons] at h
    cases known : p.aliases.find? (spells k) with
    | some x =>
      left
      simpa [known] using h
    | none =>
      have foreign : k ∉ p.aliases.map lower := by simpa [known] using own
      cases added : more.find? (spells k) with
      | some x =>
        obtain ⟨row, hr, names, raw, hraw, he⟩ := origin x (List.mem_of_find?_eq_some added)
        have spelled := List.find?_some added
        simp only [spells, Bool.and_eq_true, beq_iff_eq] at spelled
        have lists : k ∈ row.abbreviations.map nameKey := by
          refine List.mem_map.mpr ⟨raw, hraw, ?_⟩
          rw [nameKey, ← he, spelled.1]
        exact .inr ⟨p, List.mem_cons_self, by simp, row, hr, names, foreign, lists⟩
      | none =>
        rw [known] at h
        rcases ih (fun q hq => full q (List.mem_cons_of_mem p hq)) h with same | ⟨q, hq, taken⟩
        · exact .inl (by simpa using same)
        · exact .inr ⟨q, List.mem_cons_of_mem p hq, by simpa using taken⟩

end

variable {α : Type} [Scalar α]

theorem fullLength_library : ∀ p ∈ Directory.library (α := α), FullLength p := by
  intro p hp name hn
  obtain ⟨t, ht, rfl⟩ := List.mem_map.mp hp
  have spelled := LibraryTeam.wellSpelled ht
  exact (length_lower (spelled.undotted name (spelled.mem_of_mem_aliases hn))).symm

theorem exists_owner {curated : Team α} (hc : curated ∈ Directory.library) {name : Text}
    (hn : name ∈ curated.aliases) :
    ∃ owner, owner? (Directory.library (α := α)) (nameKey name) = some owner := by
  have spelled : (curated.aliases.find? (spells (nameKey name))).isSome = true := by
    rw [find?_spells_isSome (fullLength_library curated hc), Team.nameKey_eq_of_mem_aliases hn]
    exact List.mem_map_of_mem hn
  rw [← Option.isSome_iff_exists, owner?, List.findSome?_isSome_iff]
  exact ⟨curated, hc, by simpa using spelled⟩

/-- With whatever rows, a curated alias belongs to the team that it belongs to without rows, unless
a row that names another curated team lists it and so takes it over for that team. -/
theorem teamOf?_build [Coercion α] {rows : List (ProviderRow α)} {bare teams : List (Team α)}
    (plain : Directory.build [] = .ok bare) (built : Directory.build rows = .ok teams)
    {curated : Team α} (hc : curated ∈ Directory.library) {name : Text}
    (hn : name ∈ curated.aliases) :
    ∃ owner, teamOf? (ofTeams bare) name = some owner ∧
      (teamOf? (ofTeams teams) name = some owner ∨
        ∃ p ∈ Directory.library, teamOf? (ofTeams teams) name = some p.name ∧
          ∃ row ∈ Directory.accepted rows, TakesOver row p (nameKey name)) := by
  obtain ⟨owner, owned⟩ := exists_owner hc hn
  rw [Directory.build_nil] at plain
  cases plain
  refine ⟨owner, teamOf?_ofTeams owned, ?_⟩
  obtain ⟨front, back, rfl, grown⟩ := Directory.curatedFirst_build built
  have first {who : Text} (h : owner? (front.map (·.2)) (nameKey name) = some who) :
      teamOf? (ofTeams (front.map (·.2) ++ back)) name = some who := by
    apply teamOf?_ofTeams
    rw [owner?_append, h, Option.some_or]
  rcases owner?_grown grown fullLength_library owned with kept | ⟨p, hp, taken, row⟩
  · exact .inl (first kept)
  · exact .inr ⟨p, hp, first taken, row⟩

/-- A row that names one curated team and lists an alias of another. -/
def encroachingRow : ProviderRow ℚ := .loose (.object [
  ("teamId".toList, .text "arsenal".toList),
  ("teamName".toList, .text "阿森纳".toList),
  ("abbreviations".toList, .list [.text "Chelsea".toList, .text "chelsea".toList])])

def pretendingRow : ProviderRow ℚ := .loose (.object [
  ("teamId".toList, .text "fake".toList),
  ("teamName".toList, .text "Fake United".toList),
  ("abbreviations".toList, .list [.text "曼联".toList])])

/-- The teams that the rows make of the curated ones, where there are no faults. -/
def rivals : List (Team ℚ) :=
  (Directory.build [encroachingRow, pretendingRow]).toOption.getD []

theorem build_rivals : Directory.build [encroachingRow, pretendingRow] = .ok rivals := by
  have ok : (Directory.build [encroachingRow, pretendingRow]).isOk = true := by decide
  unfold rivals
  cases h : Directory.build [encroachingRow, pretendingRow] with
  | ok teams => rfl
  | error e =>
    rw [h] at ok
    cases ok

/-- The two contested aliases are curated ones.  With the rows the first stays with its owner and
the second goes to a team in front. -/
theorem owner?_rivals :
    (∃ curated ∈ Directory.library (α := ℚ), "曼联".toList ∈ curated.aliases) ∧
    (∃ curated ∈ Directory.library (α := ℚ), "chelsea".toList ∈ curated.aliases) ∧
    owner? rivals (nameKey "曼联".toList) = some "曼联".toList ∧
    owner? (Directory.library (α := ℚ)) (nameKey "chelsea".toList) = some "切尔西".toList ∧
    owner? rivals (nameKey "chelsea".toList) = some "阿森纳".toList := by
  decide

theorem teamOf?_build_rivals : Directory.build (α := ℚ) [] = .ok Directory.library ∧
    Directory.build [encroachingRow, pretendingRow] = .ok rivals ∧
    (∃ curated ∈ Directory.library (α := ℚ), "曼联".toList ∈ curated.aliases ∧
      ∃ owner, teamOf? (ofTeams (Directory.library (α := ℚ))) "曼联".toList = some owner ∧
        (teamOf? (ofTeams rivals) "曼联".toList = some owner ∨
          ∃ p ∈ Directory.library, teamOf? (ofTeams rivals) "曼联".toList = some p.name ∧
            ∃ row ∈ Directory.accepted [encroachingRow, pretendingRow],
              TakesOver row p (nameKey "曼联".toList))) ∧
    teamOf? (ofTeams rivals) "曼联".toList = some "曼联".toList := by
  obtain ⟨⟨curated, hc, hn⟩, -, kept, -⟩ := owner?_rivals
  have owned := teamOf?_build Directory.build_nil build_rivals hc hn
  exact ⟨Directory.build_nil, build_rivals, ⟨curated, hc, hn, owned⟩, teamOf?_ofTeams kept⟩

/-- A row for one curated team takes an alias over from another. -/
theorem teamOf?_encroaching : Directory.build (α := ℚ) [] = .ok Directory.library ∧
    Directory.build [encroachingRow, pretendingRow] = .ok rivals ∧
    (∃ curated ∈ Directory.library (α := ℚ), "chelsea".toList ∈ curated.aliases) ∧
    teamOf? (ofTeams (Directory.library (α := ℚ))) "chelsea".toList = some "切尔西".toList ∧
    teamOf? (ofTeams rivals) "chelsea".toList = some "阿森纳".toList := by
  obtain ⟨-, listed, -, before, after⟩ := owner?_rivals
  exact ⟨Directory.build_nil, build_rivals, listed, teamOf?_ofTeams before, teamOf?_ofTeams after⟩

end AliasDictionary

end Wager
