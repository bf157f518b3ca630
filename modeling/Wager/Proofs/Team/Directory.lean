import Wager.Proofs.Team.Library
import Wager.Proofs.Team.Names

/-!
# The curated teams of a directory

Rows are merged into the curated teams or appended behind them.  So a directory begins with the
curated teams in their order, each under its own name and with its own aliases in front; whatever
else it is known by was listed by a row that names it.
-/

namespace Wager.Directory

open Text

section

variable {α : Type}

structure Grown (rows : List (Team α)) (curated : Team α) (entry : Text × Team α) : Prop where
  named : trim curated.name ≠ []
  key_eq : entry.1 = nameKey curated.name
  name_eq : entry.2.name = curated.name
  aliases_eq : ∃ more, entry.2.aliases = curated.aliases ++ more ∧ ∀ x ∈ more, ∃ p ∈ rows,
    nameKey p.name = nameKey curated.name ∧ ∃ raw ∈ p.abbreviations, x = trim raw

theorem Grown.mergeInto {rows : List (Team α)} {curated known p : Team α} {key : Text}
    (h : Grown rows curated (key, known)) (hp : p ∈ rows) (same : key = nameKey p.name) :
    Grown rows curated (key, p.mergeInto known) := by
  have name : known.name = curated.name := h.name_eq
  have key_eq : key = nameKey curated.name := h.key_eq
  have filled : curated.name ≠ [] := by
    intro blank
    exact h.named (by rw [blank]; rfl)
  refine ⟨h.named, key_eq, by simp [Team.mergeInto, name, filled], ?_⟩
  obtain ⟨more, aliases, origin⟩ := h.aliases_eq
  have named : trim known.name ≠ [] := by
    rw [name]
    exact h.named
  have merged := Team.aliases_mergeInto named (show nameKey p.name = nameKey known.name by
    rw [← same, name, key_eq])
  refine ⟨more ++ distinctNamesFrom (known.aliases.map lower).reverse p.abbreviations, ?_, ?_⟩
  · rw [merged, ← List.append_assoc, ← aliases]
  · intro x hx
    rcases List.mem_append.mp hx with hx | hx
    · exact origin x hx
    · exact ⟨p, hp, by rw [← same, key_eq], mem_distinctNamesFrom hx⟩

end

variable {α : Type} [Scalar α]

section

variable [Coercion α]

def accepted (rows : List (ProviderRow α)) : List (Team α) :=
  rows.filterMap fun row => row.toTeam.toOption

theorem foldlM_absorbRow {rows : List (ProviderRow α)} {teams result : KeyedTeams α}
    (h : rows.foldlM absorbRow teams = .ok result) :
    (accepted rows).foldl absorb teams = result := by
  induction rows generalizing teams with
  | nil => simpa [accepted, pure, Except.pure] using h
  | cons row rows ih =>
    rw [List.foldlM_cons] at h
    cases hr : row.toTeam with
    | ok p =>
      have next : absorbRow teams row = .ok (absorb teams p) := by rw [absorbRow, hr]
      rw [next] at h
      simpa [accepted, hr, Except.toOption] using ih h
    | error e =>
      cases e with
      | invalid faults =>
        have next : absorbRow teams row = .ok teams := by rw [absorbRow, hr]
        rw [next] at h
        simpa [accepted, hr, Except.toOption] using ih h
      | unlistable kind =>
        have next : absorbRow teams row = .error (.unlistable kind) := by rw [absorbRow, hr]
        rw [next] at h
        cases h

theorem build_eq {rows : List (ProviderRow α)} {teams : List (Team α)}
    (h : build rows = .ok teams) :
    teams = ((accepted rows).foldl absorb (keyed library)).map (·.2) := by
  unfold build at h
  cases hf : rows.foldlM absorbRow (keyed (library (α := α))) with
  | error e =>
    rw [hf] at h
    cases h
  | ok result =>
    rw [hf] at h
    cases h
    rw [foldlM_absorbRow hf]

end

/-- A directory that begins with what rows made of the curated teams. -/
def CuratedFirst (rows : List (Team α)) (teams : KeyedTeams α) : Prop :=
  ∃ front back, teams = front ++ back ∧ List.Forall₂ (Grown rows) library front

theorem library_named : ∀ curated ∈ library (α := α), trim curated.name ≠ [] := by
  intro curated hc
  obtain ⟨t, ht, rfl⟩ := List.mem_map.mp hc
  exact (LibraryTeam.wellSpelled ht).named

theorem curatedFirst_library (rows : List (Team α)) : CuratedFirst rows (keyed library) := by
  refine ⟨keyed library, [], (List.append_nil _).symm, ?_⟩
  rw [keyed, List.forall₂_map_right_iff, List.forall₂_same]
  intro curated hc
  exact ⟨library_named curated hc, rfl, rfl, [], by simp⟩

theorem CuratedFirst.absorb {rows : List (Team α)} {teams : KeyedTeams α}
    (h : CuratedFirst rows teams) {p : Team α} (hp : p ∈ rows) :
    CuratedFirst rows (absorb teams p) := by
  obtain ⟨front, back, rfl, grown⟩ := h
  unfold Directory.absorb
  dsimp only
  split
  · exact ⟨front, back ++ [(nameKey p.name, p.alone)], List.append_assoc _ _ _, grown⟩
  · refine ⟨_, _, List.map_append, ?_⟩
    rw [List.forall₂_map_right_iff]
    apply grown.imp
    rintro curated ⟨key, known⟩ hg
    by_cases same : key = nameKey p.name
    · simpa [same] using hg.mergeInto hp same
    · simpa [same] using hg

theorem curatedFirst_foldl {rows : List (Team α)} {teams : KeyedTeams α}
    (h : CuratedFirst rows teams) {ps : List (Team α)} (hp : ∀ p ∈ ps, p ∈ rows) :
    CuratedFirst rows (ps.foldl Directory.absorb teams) := by
  induction ps generalizing teams with
  | nil => exact h
  | cons p ps ih =>
    exact ih (h.absorb (hp p List.mem_cons_self)) fun q hq => hp q (List.mem_cons_of_mem p hq)

variable [Coercion α]

theorem curatedFirst_build {rows : List (ProviderRow α)} {teams : List (Team α)}
    (h : build rows = .ok teams) : ∃ front back, teams = front.map (·.2) ++ back ∧
      List.Forall₂ (Grown (accepted rows)) library front := by
  obtain ⟨front, back, he, grown⟩ :=
    curatedFirst_foldl (curatedFirst_library (accepted rows)) fun _ hp => hp
  exact ⟨front, back.map (·.2), by rw [build_eq h, he, List.map_append], grown⟩

theorem build_nil : build ([] : List (ProviderRow α)) = .ok library := by
  rw [build, List.foldlM_nil]
  simp [keyed, pure, Except.pure, bind, Except.bind, Function.comp_def]

end Wager.Directory
