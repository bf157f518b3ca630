import Wager.Proofs.Slip.Sides

/-!
# Values that do not fit

Where the values of a field and the matches do not come out even, so that a value goes to no match
or a match goes without a value, a note begins with the name of the field.  Which value goes to
which match is a matter of places: it is the same for all values of the same counts.
-/

namespace Wager

section

variable {β : Type}

theorem ScalarRule.exists_place {values games j : Nat} (even : values = 1 ∨ values = games)
    (some_game : 0 < games) (hj : j < values) : ∃ i < games, place values i = j := by
  rcases even with one | same
  · exact ⟨0, some_game, by rw [place, if_pos one]; omega⟩
  · by_cases one : values = 1
    · exact ⟨0, some_game, by rw [place, if_pos one]; omega⟩
    · exact ⟨j, same ▸ hj, by rw [place, if_neg one]⟩

theorem ScalarRule.place_lt {values games i : Nat} (even : values = 1 ∨ values = games)
    (inside : i < games) : place values i < values := by
  unfold place
  split <;> omega

theorem PairRule.exists_place {values games j : Nat} (even : values = 1 ∨ values = 2 * games)
    (some_game : 0 < games) (hj : j < values) :
    ∃ i < games, (places values i).1 = j ∨ (places values i).2 = j := by
  rcases even with one | twice
  · exact ⟨0, some_game, .inl (by rw [places, if_pos one]; omega)⟩
  · refine ⟨j / 2, by omega, ?_⟩
    rw [places_of_even (by omega)]
    dsimp only
    omega

theorem PairRule.places_lt {values games i : Nat} (even : values = 1 ∨ values = 2 * games)
    (inside : i < games) : (places values i).1 < values ∧ (places values i).2 < values := by
  rcases even with one | twice
  · rw [places, if_pos one]
    omega
  · rw [places_of_even (by omega)]
    dsimp only
    omega

/-- A place among the members of all groups is in one group, whatever the members are. -/
theorem exists_group {shape : List Nat} {j : Nat} (hj : j < shape.sum) :
    ∃ i < shape.length, ∀ groups : List (List β), groups.map List.length = shape →
      ∃ g, groups[i]? = some g ∧ ∃ v ∈ g, groups.flatten[j]? = some v := by
  -- The induction is on the sizes, so that one group is meant for all members.
  induction shape generalizing j with
  | nil => simp at hj
  | cons n shape ih =>
    rw [List.sum_cons] at hj
    by_cases first : j < n
    · refine ⟨0, Nat.succ_pos _, fun groups same => ?_⟩
      obtain ⟨g, rest, rfl, rfl, -⟩ := List.map_eq_cons_iff.mp same
      refine ⟨g, rfl, g[j], List.getElem_mem first, ?_⟩
      rw [List.flatten_cons, List.getElem?_append_left first, List.getElem?_eq_getElem first]
    · obtain ⟨i, inside, later⟩ := ih (j := j - n) (by omega)
      refine ⟨i + 1, Nat.succ_lt_succ inside, fun groups same => ?_⟩
      obtain ⟨g, rest, rfl, rfl, tail⟩ := List.map_eq_cons_iff.mp same
      obtain ⟨h, at_i, v, hv, at_j⟩ := later rest tail
      refine ⟨h, at_i, v, hv, ?_⟩
      rw [List.flatten_cons, List.getElem?_append_right (Nat.le_of_not_lt first), at_j]

namespace OddsRule

/-- Each rule but the last one hands every price to a match, which depends on nothing but the sizes
of the groups. -/
theorem exists_game {rule : OddsRule} {shape : List Nat} {games : Nat}
    (applies : rule.Applies shape.length shape.sum games) (all : rule ≠ .overlap)
    (some_game : 0 < games) {j : Nat} (hj : j < shape.sum) :
    ∃ i < games, ∀ groups : List (List β), groups.map List.length = shape →
      ∃ prices, (rule.spread groups groups.flatten games)[i]? = some prices ∧
        ∃ v ∈ prices, groups.flatten[j]? = some v := by
  have counted {groups : List (List β)} (same : groups.map List.length = shape) :
      j < groups.flatten.length := by rwa [List.length_flatten, same]
  cases rule with
  | none => exact absurd hj (by rw [show shape.sum = 0 from applies]; omega)
  | perGroup =>
    have length : shape.length = games := applies
    obtain ⟨i, inside, found⟩ := exists_group (β := β) hj
    refine ⟨i, length ▸ inside, fun groups same => ?_⟩
    obtain ⟨g, at_i, member⟩ := found groups same
    rw [spread, getElem?_map_range _ (length ▸ inside), at_i]
    exact ⟨g, rfl, member⟩
  | broadcast =>
    have one : shape.sum = 1 := applies
    refine ⟨0, some_game, fun groups same => ?_⟩
    have inside := counted same
    refine ⟨_, List.getElem?_replicate_of_lt some_game, groups.flatten[j], ?_,
      List.getElem?_eq_getElem inside⟩
    rw [List.take_of_length_le (by rw [List.length_flatten, same, one])]
    exact List.getElem_mem inside
  | positional =>
    have length : shape.sum = games := applies
    refine ⟨j, length ▸ hj, fun groups same => ?_⟩
    have inside := counted same
    rw [spread, getElem?_map_range _ (length ▸ hj), List.getElem?_eq_getElem inside]
    exact ⟨_, rfl, groups.flatten[j], List.mem_singleton_self _, rfl⟩
  | singleMatch =>
    refine ⟨0, some_game, fun groups same => ?_⟩
    have inside := counted same
    exact ⟨_, List.getElem?_replicate_of_lt some_game, groups.flatten[j],
      List.getElem_mem inside, List.getElem?_eq_getElem inside⟩
  | overlap => exact absurd rfl all

/-- Each rule but the last one hands a price to every match, where there are prices and none of the
groups is empty. -/
theorem ne_nil_of_mem_spread {rule : OddsRule} {groups : List (List β)} {games : Nat}
    (applies : rule.Applies groups.length groups.flatten.length games) (all : rule ≠ .overlap)
    (filled : ∀ g ∈ groups, g ≠ []) (stated : groups.flatten ≠ []) {prices : List β}
    (hp : prices ∈ rule.spread groups groups.flatten games) : prices ≠ [] := by
  cases rule with
  | none => exact absurd (List.length_eq_zero_iff.mp applies) stated
  | perGroup =>
    have length : groups.length = games := applies
    obtain ⟨i, inside, rfl⟩ := List.mem_map.mp hp
    have bound : i < groups.length := length ▸ List.mem_range.mp inside
    rw [List.getElem?_eq_getElem bound, Option.getD_some]
    exact filled _ (List.getElem_mem bound)
  | broadcast =>
    obtain rfl := List.eq_of_mem_replicate hp
    simpa using stated
  | positional =>
    have length : groups.flatten.length = games := applies
    obtain ⟨i, inside, rfl⟩ := List.mem_map.mp hp
    have bound : i < groups.flatten.length := length ▸ List.mem_range.mp inside
    rw [List.getElem?_eq_getElem bound]
    exact List.cons_ne_nil _ _
  | singleMatch =>
    obtain rfl := List.eq_of_mem_replicate hp
    exact stated
  | overlap => exact absurd rfl all

end OddsRule

theorem ScalarRule.even_or_overlap {values : Nat} (stated : values ≠ 0) (games : Nat) :
    (values = 1 ∨ values = games) ∨ select values games = .overlap := by
  rw [select, if_neg stated]
  split_ifs with one same
  · exact .inl (.inl one)
  · exact .inl (.inr same)
  · exact .inr rfl

theorem PairRule.even_or_guess {values : Nat} (stated : values ≠ 0) (games : Nat) :
    (values = 1 ∨ values = 2 * games) ∨ ∃ guess, (select values games).guess? = some guess := by
  rw [select, if_neg stated]
  split_ifs with one two twice even
  · exact .inl (.inl one)
  · exact .inl (.inr (by omega))
  · exact .inl (.inr twice)
  · exact .inr ⟨_, rfl⟩
  · exact .inr ⟨_, rfl⟩

namespace Assignment

variable {values both : List β} {games i : Nat}

theorem scalarAt_eq (inside : i < games) :
    scalarAt values games i = values[ScalarRule.place values.length i]? := by
  rw [scalarAt, scalars, ScalarRule.getElem?_spread (ScalarRule.applies_select _ _) inside,
    Option.join_some]

theorem pairAt_eq (inside : i < games) :
    pairAt both games i = (both[(PairRule.places both.length i).1]?,
      both[(PairRule.places both.length i).2]?) := by
  rw [pairAt, PairRule.getElem?_spread (PairRule.applies_select _ _) inside, Option.getD_some]

end Assignment

end

/-- A field of a slip that is spread over matches: the values stated for it, as they are handed out,
and what is given at each of the places that it fills in a match. -/
structure SpreadField (α β : Type) where
  name : Text
  stated : Parameters α → List β
  places : FixtureValues α → List (List β)

/-- Whether parameters have as many values in each field, and at each odds keyword, as others. -/
structure Parameters.SameCounts {α : Type} (p q : Parameters α) : Prop where
  conf : q.conf.length = p.conf.length
  fid : q.fid.length = p.fid.length
  fse : q.fse.length = p.fse.length
  fseHome : q.fseHome.length = p.fseHome.length
  fseAway : q.fseAway.length = p.fseAway.length
  tys : q.tys.length = p.tys.length
  tysHome : q.tysHome.length = p.tysHome.length
  tysAway : q.tysAway.length = p.tysAway.length
  groups : q.oddsGroups.map List.length = p.oddsGroups.map List.length
  grouped : q.oddsGroups.flatten = q.odds

theorem Parameters.SameCounts.refl {α : Type} {p : Parameters α}
    (grouped : p.oddsGroups.flatten = p.odds) : p.SameCounts p :=
  ⟨rfl, rfl, rfl, rfl, rfl, rfl, rfl, rfl, rfl, grouped⟩

namespace SpreadField

open Assignment

section

variable {α : Type}

def conf : SpreadField α Int where
  name := "conf".toList
  stated p := p.conf.map boundPercent
  places g := [g.conf.toList]

def fid : SpreadField α α where
  name := "fid".toList
  stated p := p.fid
  places g := [g.fid.toList]

def fse : SpreadField α Int where
  name := "fse".toList
  stated p := p.fse.map boundPercent
  places g := [g.fseHome.toList, g.fseAway.toList]

def tys : SpreadField α Tys where
  name := "tys".toList
  stated p := p.tys
  places g := [g.tysHome.toList, g.tysAway.toList]

def odds : SpreadField α α where
  name := "odds".toList
  stated p := p.odds
  places g := [g.odds]

end

variable {α β : Type} {f : SpreadField α β} {p : Parameters α} {games : Nat}

/-- Whether the `j`-th value of a field goes to the `i`-th match: it is given there, whatever the
values are. -/
def Reaches (f : SpreadField α β) (p : Parameters α) (games j i : Nat) : Prop :=
  ∀ q, p.SameCounts q → ∃ g, (ofParameters q games).games[i]? = some g ∧
    ∃ v, (f.stated q)[j]? = some v ∧ ∃ given ∈ f.places g, v ∈ given

/-- Whether a value of a field goes to no match, or a match is left without a value. -/
def Misfits (f : SpreadField α β) (p : Parameters α) (games : Nat) : Prop :=
  (∃ j < (f.stated p).length, ∀ i < games, ¬f.Reaches p games j i) ∨
    ∃ g ∈ (ofParameters p games).games, [] ∈ f.places g

def Noted (f : SpreadField α β) (p : Parameters α) (games : Nat) : Prop :=
  ∃ n ∈ (ofParameters p games).notes, (f.name ++ [':']) <+: n.message

/-- Whether a place in the matches is given values of a field by their own places, which depend on
nothing but the counts. -/
structure Handed (f : SpreadField α β) (p : Parameters α) (games : Nat)
    (slot : FixtureValues α → Option β) (place : Nat → Nat) : Prop where
  listed : ∀ g, (slot g).toList ∈ f.places g
  counted : ∀ q, p.SameCounts q → (f.stated q).length = (f.stated p).length
  given : ∀ q, p.SameCounts q → (ofParameters q games).games.map slot =
    (List.range games).map fun i => (f.stated q)[place i]?

section

variable {slot : FixtureValues α → Option β} {place : Nat → Nat}

theorem handed_of_range {value : Parameters α → Nat → Option β}
    (spread : ∀ q, (ofParameters q games).games.map slot = (List.range games).map (value q))
    (listed : ∀ g, (slot g).toList ∈ f.places g)
    (counted : ∀ q, p.SameCounts q → (f.stated q).length = (f.stated p).length)
    (placed : ∀ q, p.SameCounts q → ∀ i < games, value q i = (f.stated q)[place i]?) :
    f.Handed p games slot place where
  listed := listed
  counted := counted
  given q same := by
    rw [spread]
    apply List.map_congr_left
    intro i hi
    exact placed q same i (List.mem_range.mp hi)

variable (handed : f.Handed p games slot place)
include handed

theorem Handed.reaches {i : Nat} (inside : i < games) (bound : place i < (f.stated p).length) :
    f.Reaches p games (place i) i := by
  intro q same
  have within : i < (ofParameters q games).games.length := by rwa [length_games_ofParameters]
  have at_i := List.getElem?_eq_getElem within
  have value := eq_of_map_eq_range (handed.given q same) at_i
  have stated : place i < (f.stated q).length := by rwa [handed.counted q same]
  rw [List.getElem?_eq_getElem stated] at value
  exact ⟨_, at_i, _, List.getElem?_eq_getElem stated, _, handed.listed _, by simp [value]⟩

theorem Handed.toList_ne_nil (same : p.SameCounts p)
    (bound : ∀ i < games, place i < (f.stated p).length) {g : FixtureValues α}
    (hg : g ∈ (ofParameters p games).games) : (slot g).toList ≠ [] := by
  obtain ⟨i, within, rfl⟩ := List.getElem_of_mem hg
  have inside : i < games := by rwa [length_games_ofParameters] at within
  have value := eq_of_map_eq_range (handed.given p same) (List.getElem?_eq_getElem within)
  rw [value, List.getElem?_eq_getElem (bound i inside)]
  exact List.cons_ne_nil _ _

end

theorem fits_of_scalars (slot : FixtureValues α → Option β)
    (spread : ∀ q, (ofParameters q games).games.map slot =
      (List.range games).map (scalarAt (f.stated q) games))
    (listed : ∀ g, f.places g = [(slot g).toList])
    (counted : ∀ q, p.SameCounts q → (f.stated q).length = (f.stated p).length)
    (same : p.SameCounts p) (some_game : 0 < games)
    (even : (f.stated p).length = 1 ∨ (f.stated p).length = games) : ¬f.Misfits p games := by
  have handed : f.Handed p games slot (ScalarRule.place (f.stated p).length) := by
    refine handed_of_range spread (fun g => by simp [listed]) counted ?_
    intro q same i inside
    rw [scalarAt_eq inside, counted q same]
  rintro (⟨j, hj, unreached⟩ | ⟨g, hg, lacking⟩)
  · obtain ⟨i, inside, rfl⟩ := ScalarRule.exists_place even some_game hj
    exact unreached i inside (handed.reaches inside hj)
  · rw [listed, List.mem_singleton] at lacking
    exact handed.toList_ne_nil same (fun i => ScalarRule.place_lt even) hg lacking.symm

/-- Where no value names a side, values are handed out to both sides by their places. -/
theorem handed_sides {pair : FixtureValues α → Option β × Option β}
    {home away : Parameters α → List β}
    (spread : ∀ q, (ofParameters q games).games.map pair =
      sides (f.stated q) (home q) (away q) games)
    (listed : ∀ g, f.places g = [(pair g).1.toList, (pair g).2.toList])
    (counted : ∀ q, p.SameCounts q → (f.stated q).length = (f.stated p).length)
    (unmarked : ∀ q, p.SameCounts q → home q = [] ∧ away q = []) :
    f.Handed p games (fun g => (pair g).1)
        (fun i => (PairRule.places (f.stated p).length i).1) ∧
      f.Handed p games (fun g => (pair g).2)
        fun i => (PairRule.places (f.stated p).length i).2 := by
  constructor
  · refine handed_of_range (fun q => home_of_sides (spread q)) (fun g => by simp [listed])
      counted ?_
    intro q same i inside
    rw [(unmarked q same).1, scalarAt_nil, pairAt_eq inside, counted q same]
    rfl
  · refine handed_of_range (fun q => away_of_sides (spread q)) (fun g => by simp [listed])
      counted ?_
    intro q same i inside
    rw [(unmarked q same).2, scalarAt_nil, pairAt_eq inside, counted q same]
    rfl

/-- Values for both sides, one for all of them or one for each side of each match, leave nothing
over. -/
theorem fits_of_sides {pair : FixtureValues α → Option β × Option β}
    {home away : Parameters α → List β}
    (spread : ∀ q, (ofParameters q games).games.map pair =
      sides (f.stated q) (home q) (away q) games)
    (listed : ∀ g, f.places g = [(pair g).1.toList, (pair g).2.toList])
    (counted : ∀ q, p.SameCounts q → (f.stated q).length = (f.stated p).length)
    (unmarked : ∀ q, p.SameCounts q → home q = [] ∧ away q = [])
    (same : p.SameCounts p) (some_game : 0 < games)
    (even : (f.stated p).length = 1 ∨ (f.stated p).length = 2 * games) : ¬f.Misfits p games := by
  obtain ⟨first, second⟩ := handed_sides spread listed counted unmarked
  rintro (⟨j, hj, unreached⟩ | ⟨g, hg, lacking⟩)
  · obtain ⟨i, inside, rfl | rfl⟩ := PairRule.exists_place even some_game hj
    · exact unreached i inside (first.reaches inside hj)
    · exact unreached i inside (second.reaches inside hj)
  · rw [listed, List.mem_pair] at lacking
    rcases lacking with lacking | lacking
    · exact first.toList_ne_nil same (fun i hi => (PairRule.places_lt even hi).1) hg lacking.symm
    · exact second.toList_ne_nil same (fun i hi => (PairRule.places_lt even hi).2) hg lacking.symm

section

variable {p : Parameters α} (same : p.SameCounts p) (some_game : 0 < games)
include same some_game

theorem fits_conf (even : p.conf.length = 1 ∨ p.conf.length = games) : ¬conf.Misfits p games := by
  refine fits_of_scalars (·.conf) (fun q => ?_) (fun g => rfl)
    (fun q same => by simp [conf, same.conf]) same some_game (by simpa [conf] using even)
  rw [games_ofParameters_eq, valuesFor, List.map_map]
  rfl

theorem fits_fid (even : p.fid.length = 1 ∨ p.fid.length = games) : ¬fid.Misfits p games := by
  refine fits_of_scalars (·.fid) (fun q => ?_) (fun g => rfl) (fun q same => same.fid)
    same some_game even
  rw [games_ofParameters_eq, valuesFor, List.map_map]
  rfl

theorem fits_fse (unmarked : p.hasFseSides = false)
    (even : p.fse.length = 1 ∨ p.fse.length = 2 * games) : ¬fse.Misfits p games := by
  obtain ⟨home, away⟩ : p.fseHome = [] ∧ p.fseAway = [] := by
    simpa [Parameters.hasFseSides] using unmarked
  refine fits_of_sides (f := fse) (fun q => fse_ofParameters q games) (fun g => rfl)
    (fun q same => by simp [fse, same.fse]) (fun q same => ?_) same some_game
    (by simpa [fse] using even)
  have none := And.intro same.fseHome same.fseAway
  simpa [home, away] using none

theorem fits_tys (unmarked : p.hasTysSides = false)
    (even : p.tys.length = 1 ∨ p.tys.length = 2 * games) : ¬tys.Misfits p games := by
  obtain ⟨home, away⟩ : p.tysHome = [] ∧ p.tysAway = [] := by
    simpa [Parameters.hasTysSides] using unmarked
  refine fits_of_sides (f := tys) (fun q => tys_ofParameters q games) (fun g => rfl)
    (fun q same => same.tys) (fun q same => ?_) same some_game even
  have none := And.intro same.tysHome same.tysAway
  simpa [home, away] using none

theorem fits_odds (filled : ∀ g ∈ p.oddsGroups, g ≠ []) (stated : p.odds ≠ [])
    (all : OddsRule.select p.oddsGroups.length p.odds.length games ≠ .overlap) :
    ¬odds.Misfits p games := by
  have grouped := same.grouped
  have total {q : Parameters α} (hq : p.SameCounts q) :
      (p.oddsGroups.map List.length).sum = q.odds.length := by
    rw [← hq.groups, ← List.length_flatten, hq.grouped]
  have applies := OddsRule.applies_select p.oddsGroups.length p.odds.length games
  have shaped : (OddsRule.select p.oddsGroups.length p.odds.length games).Applies
      (p.oddsGroups.map List.length).length (p.oddsGroups.map List.length).sum games := by
    rwa [List.length_map, total same]
  have handed_out (q : Parameters α) : (ofParameters q games).games.map (·.odds) =
      (OddsRule.select q.oddsGroups.length q.odds.length games).spread q.oddsGroups q.odds
        games := by
    rw [← handed_eq, games_ofParameters_eq, handed]
  rintro (⟨j, hj, unreached⟩ | ⟨g, hg, lacking⟩)
  · rw [odds, ← total same] at hj
    obtain ⟨i, inside, reached⟩ := OddsRule.exists_game (β := α) shaped all some_game hj
    refine unreached i inside fun q hq => ?_
    obtain ⟨prices, at_i, v, hv, at_j⟩ := reached q.oddsGroups hq.groups
    -- Other prices in groups of the same sizes come under the same rule.
    have count : q.oddsGroups.length = p.oddsGroups.length := by
      simpa using congrArg List.length hq.groups
    rw [hq.grouped, ← count, ← total same, total hq, ← handed_out, List.getElem?_map,
      Option.map_eq_some_iff] at at_i
    obtain ⟨g, at_i, rfl⟩ := at_i
    rw [hq.grouped] at at_j
    exact ⟨g, at_i, v, at_j, _, List.mem_singleton_self _, hv⟩
  · rw [odds, List.mem_singleton] at lacking
    have member := List.mem_map_of_mem (f := (·.odds)) hg
    rw [handed_out] at member
    rw [← grouped] at applies all stated member
    exact OddsRule.ne_nil_of_mem_spread applies all filled stated member lacking.symm

end

theorem misfits_of_absent (grouped : p.oddsGroups.flatten = p.odds) {v : β} (hv : v ∈ f.stated p)
    (absent : ∀ g ∈ (ofParameters p games).games, ∀ given ∈ f.places g, v ∉ given) :
    f.Misfits p games := by
  obtain ⟨j, hj, rfl⟩ := List.getElem_of_mem hv
  refine .inl ⟨j, hj, fun i _ reaches => ?_⟩
  obtain ⟨g, at_i, w, at_j, given, hg, hw⟩ := reaches p (.refl grouped)
  rw [List.getElem?_eq_getElem hj] at at_j
  exact absent g (List.mem_of_getElem? at_i) given hg (Option.some.inj at_j ▸ hw)

theorem noted_of_mem {n : MismatchNote} (hn : n ∈ notesFor p games) (name : n.field = f.name)
    (some_game : 0 < games) : f.Noted p games := by
  refine ⟨n, ?_, ?_⟩
  · rwa [ofParameters, if_neg some_game.ne']
  · simp [MismatchNote.message, name]

/-- Where a value of a field goes to no match, or a match is left without a value of a field that
has some, a note begins with the name of the field; for the fields with sides so where no value
names a side. -/
theorem misfits_noted {p : Parameters α} (grouped : p.oddsGroups.flatten = p.odds)
    (filled : ∀ g ∈ p.oddsGroups, g ≠ []) {games : Nat} (some_game : 0 < games) :
    (p.conf ≠ [] → conf.Misfits p games → conf.Noted p games) ∧
    (p.fid ≠ [] → fid.Misfits p games → fid.Noted p games) ∧
    (p.odds ≠ [] → odds.Misfits p games → odds.Noted p games) ∧
    (p.hasFseSides = false → p.fse ≠ [] → fse.Misfits p games → fse.Noted p games) ∧
    (p.hasTysSides = false → p.tys ≠ [] → tys.Misfits p games → tys.Noted p games) := by
  have same := Parameters.SameCounts.refl grouped
  have some_value {γ : Type} {values : List γ} (stated : values ≠ []) : values.length ≠ 0 :=
    mt List.length_eq_zero_iff.mp stated
  refine ⟨?_, ?_, ?_, ?_, ?_⟩
  · intro stated misfits
    rcases ScalarRule.even_or_overlap (some_value stated) games with even | last
    · exact absurd misfits (fits_conf same some_game even)
    · exact noted_of_mem (n := ⟨"conf".toList, p.conf.length, games, none⟩)
        (by simp [notesFor, scalarNotes, last]) rfl some_game
  · intro stated misfits
    rcases ScalarRule.even_or_overlap (some_value stated) games with even | last
    · exact absurd misfits (fits_fid same some_game even)
    · exact noted_of_mem (n := ⟨"fid".toList, p.fid.length, games, none⟩)
        (by simp [notesFor, scalarNotes, last]) rfl some_game
  · intro stated misfits
    by_cases last : OddsRule.select p.oddsGroups.length p.odds.length games = .overlap
    · exact noted_of_mem (n := ⟨"odds".toList, p.odds.length, games, none⟩)
        (by simp [notesFor, oddsNotes, last]) rfl some_game
    · exact absurd misfits (fits_odds same some_game filled stated last)
  · intro unmarked stated misfits
    rcases PairRule.even_or_guess (some_value stated) games with even | ⟨guess, chosen⟩
    · exact absurd misfits (fits_fse same some_game unmarked even)
    · exact noted_of_mem (n := ⟨"fse".toList, p.fse.length, games, some guess⟩)
        (by simp [notesFor, sideNotes, chosen]) rfl some_game
  · intro unmarked stated misfits
    rcases PairRule.even_or_guess (some_value stated) games with even | ⟨guess, chosen⟩
    · exact absurd misfits (fits_tys same some_game unmarked even)
    · exact noted_of_mem (n := ⟨"tys".toList, p.tys.length, games, some guess⟩)
        (by simp [notesFor, sideNotes, chosen]) rfl some_game

/-- Parameters for two matches with a confidence, a FID value, a price and a TYS grade too many, and
FSE values for one match alone. -/
def unevenParameters : Parameters ℚ :=
  { (Parameters.none : Parameters ℚ) with
    conf := [55, 60, 70], fid := [0.4, 0.5, 0.6], odds := [2, 3, 4], oddsGroups := [[2, 3, 4]]
    fse := [80, 60], tys := [.large, .small, .heavy] }

theorem misfits_noted_uneven : unevenParameters.oddsGroups.flatten = unevenParameters.odds ∧
    (∀ g ∈ unevenParameters.oddsGroups, g ≠ []) ∧
    (conf.Misfits unevenParameters 2 ∧ conf.Noted unevenParameters 2) ∧
    (fid.Misfits unevenParameters 2 ∧ fid.Noted unevenParameters 2) ∧
    (odds.Misfits unevenParameters 2 ∧ odds.Noted unevenParameters 2) ∧
    (fse.Misfits unevenParameters 2 ∧ fse.Noted unevenParameters 2) ∧
    (tys.Misfits unevenParameters 2 ∧ tys.Noted unevenParameters 2) := by
  have grouped : unevenParameters.oddsGroups.flatten = unevenParameters.odds := rfl
  have filled : ∀ g ∈ unevenParameters.oddsGroups, g ≠ [] := by decide
  have noted := misfits_noted grouped filled (show 0 < 2 by decide)
  have conf_over : conf.Misfits unevenParameters 2 :=
    misfits_of_absent grouped (v := 70) (by decide) (by decide)
  have fid_over : fid.Misfits unevenParameters 2 :=
    misfits_of_absent grouped (v := 0.6) (by decide +kernel) (by decide +kernel)
  have odds_over : odds.Misfits unevenParameters 2 :=
    misfits_of_absent grouped (v := 4) (by decide) (by decide)
  have fse_lacking : fse.Misfits unevenParameters 2 := .inr (by decide)
  have tys_over : tys.Misfits unevenParameters 2 :=
    misfits_of_absent grouped (v := .heavy) (by decide) (by decide)
  exact ⟨grouped, filled, ⟨conf_over, noted.1 (by decide) conf_over⟩,
    ⟨fid_over, noted.2.1 (by decide) fid_over⟩, ⟨odds_over, noted.2.2.1 (by decide) odds_over⟩,
    ⟨fse_lacking, noted.2.2.2.1 rfl (by decide) fse_lacking⟩,
    ⟨tys_over, noted.2.2.2.2 rfl (by decide) tys_over⟩⟩

end SpreadField

end Wager
