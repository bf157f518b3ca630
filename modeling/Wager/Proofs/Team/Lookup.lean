import Wager.Proofs.Keyed
import Wager.Proofs.Team.Leftmost
import Wager.Proofs.Team.Ownership

/-!
# Dictionary and directory

A dictionary holds every name once, longer ones first.  Sorting does not move names of one length
past each other, so where all spellings of a name have one length, the entry that is kept is that of
the first team known by it: the team that is found when the name is looked up in the directory.
-/

namespace Wager

open Text

theorem filter_eq_toList_find? {β κ : Type} [BEq κ] [LawfulBEq κ] {key : β → κ} {l : List β}
    (distinct : (l.map key).Nodup) (k : κ) :
    l.filter (key · == k) = (l.find? (key · == k)).toList := by
  cases found : l.find? (key · == k) with
  | none => simpa [List.filter_eq_nil_iff] using found
  | some x =>
    have same : key x = k := by simpa using List.find?_some found
    rw [← same, Keyed.filter_key_eq distinct (List.mem_of_find?_eq_some found)]
    rfl

namespace AliasDictionary

theorem notMem_seen_of_mem_distinctFrom {seen : List Text} {entries : List TeamAlias}
    {e : TeamAlias}
    (he : e ∈ distinctFrom seen entries) : e.lowered ∉ seen := by
  induction entries generalizing seen with
  | nil => cases he
  | cons x entries ih =>
    rw [distinctFrom] at he
    split at he
    next => exact ih he
    next new =>
      rcases List.mem_cons.mp he with rfl | later
      · simpa using new
      · exact fun old => ih later (List.mem_cons_of_mem _ old)

theorem nodup_distinctFrom (seen : List Text) (entries : List TeamAlias) :
    ((distinctFrom seen entries).map (·.lowered)).Nodup := by
  induction entries generalizing seen with
  | nil => exact List.nodup_nil
  | cons e entries ih =>
    rw [distinctFrom]
    split
    · exact ih seen
    · rw [List.map_cons, List.nodup_cons]
      refine ⟨?_, ih _⟩
      rintro again
      obtain ⟨x, hx, same⟩ := List.mem_map.mp again
      exact notMem_seen_of_mem_distinctFrom hx (same ▸ List.mem_cons_self)

theorem nodup_ofAliases (entries : List TeamAlias) :
    ((ofAliases entries).map (·.lowered)).Nodup := nodup_distinctFrom [] _

/-- Where all entries for a name have one length, sorting and leaving out repeated names keep what
is found first. -/
theorem find?_ofAliases_of_even {entries : List TeamAlias} {k : Text}
    (even : ∀ x ∈ entries, ∀ y ∈ entries, x.lowered = k → y.lowered = k → x.length = y.length) :
    (ofAliases entries).find? (·.lowered == k) = entries.find? (·.lowered == k) := by
  rw [ofAliases, find?_distinctFrom List.not_mem_nil]
  cases first : entries.find? (·.lowered == k) with
  | none =>
    rw [List.find?_eq_none] at first ⊢
    exact fun x hx => first x (List.mem_mergeSort.mp hx)
  | some e =>
    have he := List.mem_of_find?_eq_some first
    obtain ⟨fits, front, back, rfl, before⟩ := List.find?_eq_some_iff_append.mp first
    apply find?_mergeSort
    · intro a b c hab hbc
      simp only [decide_eq_true_eq] at hab hbc ⊢
      omega
    · intro a b
      simp only [Bool.or_eq_true, decide_eq_true_eq]
      omega
    · exact fits
    · intro x hx hp
      have member : x ∈ front ++ e :: back :=
        List.mem_append_right front (List.mem_cons_of_mem e hx)
      have same := even x member e he (beq_iff_eq.mp hp) (beq_iff_eq.mp fits)
      exact decide_eq_true (Nat.le_of_eq same)
    -- Nothing for the name stands in front of what is found first.
    · intro x hx hp
      have other := before x hx
      rw [hp] at other
      cases other

variable {α : Type}

/-- The first entry of all teams' names for a name is of the first team that has it. -/
theorem find?_flatMap_ofTeam (teams : List (Team α)) (k : Text) :
    ((teams.flatMap TeamAlias.ofTeam).find? (·.lowered == k)).map
        (fun e => (e.teamId, e.teamName)) =
      (teams.find? fun p => p.aliases.any fun a => nameKey a == k).map fun p => (p.id, p.name) := by
  induction teams with
  | nil => rfl
  | cons p teams ih =>
    let knows (p : Team α) : Bool := p.aliases.any fun a => nameKey a == k
    have known : knows p = ((TeamAlias.ofTeam p).find? (·.lowered == k)).isSome := by
      rw [TeamAlias.ofTeam, List.find?_map, Option.isSome_map, List.isSome_find?]
      rw [Bool.eq_iff_iff, List.any_eq_true, List.any_eq_true]
      refine exists_congr fun a => and_congr_right fun ha => ?_
      rw [Team.nameKey_eq_of_mem_aliases ha]
      rfl
    rw [List.flatMap_cons, List.find?_append]
    cases found : (TeamAlias.ofTeam p).find? (·.lowered == k) with
    | none =>
      rw [found] at known
      rw [List.find?_cons_of_neg (p := knows) (by simp [known]), Option.none_or, ih]
    | some e =>
      rw [found] at known
      obtain ⟨name, -, rfl⟩ := List.mem_map.mp (List.mem_of_find?_eq_some found)
      rw [List.find?_cons_of_pos (p := knows) known]
      rfl

/-- Whether all names of some teams with the lower-case form `k` have one length. -/
def EvenLength (teams : List (Team α)) (k : Text) : Prop :=
  ∀ a ∈ teams.flatMap Team.aliases, ∀ b ∈ teams.flatMap Team.aliases,
    lower a = k → lower b = k → a.length = b.length

theorem EvenLength.entries {teams : List (Team α)} {k : Text} (even : EvenLength teams k) :
    ∀ x ∈ teams.flatMap TeamAlias.ofTeam, ∀ y ∈ teams.flatMap TeamAlias.ofTeam,
      x.lowered = k → y.lowered = k → x.length = y.length := by
  have named {e : TeamAlias} (he : e ∈ teams.flatMap TeamAlias.ofTeam) :
      e.name ∈ teams.flatMap Team.aliases ∧ e.lowered = lower e.name := by
    obtain ⟨p, hp, listed⟩ := List.mem_flatMap.mp he
    obtain ⟨name, hn, rfl⟩ := List.mem_map.mp listed
    exact ⟨List.mem_flatMap.mpr ⟨p, hp, hn⟩, rfl⟩
  intro x hx y hy x_key y_key
  obtain ⟨x_listed, x_lowered⟩ := named hx
  obtain ⟨y_listed, y_lowered⟩ := named hy
  exact even x.name x_listed y.name y_listed (x_lowered ▸ x_key) (y_lowered ▸ y_key)

variable [Scalar α] [Coercion α]

theorem ofRows_teams (teams : List (Team α)) :
    ofRows (teams.map ProviderRow.team) = .ok (ofTeams teams) := by
  have read : (teams.map ProviderRow.team).mapM ProviderRow.toTeam = .ok teams := by
    rw [List.mapM_map]
    exact List.mapM_pure.trans (congrArg Except.ok (List.map_id' teams))
  rw [ofRows, read]
  rfl

/-- A dictionary lists longer names first and no lower-case name twice.  A query all spellings of
which have one length has one entry if the directory finds a team for it, that team's entry, and no
entry otherwise. -/
theorem entries_eq_find? (teams : List (Team α)) :
    ∃ dictionary, ofRows (teams.map ProviderRow.team) = .ok dictionary ∧
      dictionary.Pairwise (fun a b => b.length ≤ a.length) ∧
      (dictionary.map (·.lowered)).Nodup ∧
      ∀ query, trim query ≠ [] → EvenLength teams (nameKey query) →
        (dictionary.filter (·.lowered == nameKey query)).map (fun e => (e.teamId, e.teamName)) =
          ((Directory.find? query teams).map fun p => (p.id, p.name)).toList := by
  refine ⟨ofTeams teams, ofRows_teams teams, sorted_ofAliases _, nodup_ofAliases _, ?_⟩
  intro query content even
  have lookup : Directory.find? query teams =
      teams.find? fun p => p.aliases.any fun a => nameKey a == nameKey query := by
    rw [Directory.find?, if_neg (by simpa [nameKey_eq_nil_iff] using content)]
  rw [lookup, ← find?_flatMap_ofTeam, ← find?_ofAliases_of_even even.entries,
    ofTeams, filter_eq_toList_find? (nodup_ofAliases _), Option.toList_map]

/-- Two teams that are known by one name in different letter case. -/
def unitedTeams : List (Team ℚ) := [
  ⟨"leeds".toList, "Leeds".toList, ["United".toList], 0, 0.5⟩,
  ⟨"manutd".toList, "Man Utd".toList, ["UNITED".toList, "utd".toList], 0, 0.5⟩]

theorem entries_eq_find?_united : trim " united ".toList ≠ [] ∧
    EvenLength unitedTeams (nameKey " united ".toList) ∧
    ∃ dictionary, ofRows (unitedTeams.map ProviderRow.team) = .ok dictionary ∧
      (dictionary.filter (·.lowered == "united".toList)).map (fun e => (e.teamId, e.teamName)) =
        [("leeds".toList, "Leeds".toList)] := by
  have content : trim " united ".toList ≠ [] := by decide
  have even : EvenLength unitedTeams (nameKey " united ".toList) := by
    unfold EvenLength
    decide
  obtain ⟨dictionary, made, -, -, entries⟩ := entries_eq_find? unitedTeams
  have found : Directory.find? " united ".toList unitedTeams = unitedTeams.head? := rfl
  have only := entries " united ".toList content even
  rw [found] at only
  exact ⟨content, even, dictionary, made, only⟩

end AliasDictionary

end Wager
