import Wager.Proofs.Scalar.Rational
import Wager.Proofs.Slip.Prices

/-!
# Home and away

Values that name their side are put over those that name none, first for the home side and then for
the away side.  Where any value names a side, this is a rule of its own; but it changes nothing for
a side that no value names.  So what a side is given depends on the values that name this side and
on those that name none, and on nothing else.
-/

namespace Wager

section

variable {β : Type}

theorem getElem?_map_range {γ : Type} (f : Nat → γ) {games i : Nat} (inside : i < games) :
    ((List.range games).map f)[i]? = some (f i) := by
  rw [List.getElem?_map, List.getElem?_range inside, Option.map_some]

namespace ScalarRule

def Applies (values games : Nat) : ScalarRule → Prop
  | .none => values = 0
  | .broadcast => values = 1
  | .positional => values ≠ 1 ∧ values = games
  | .overlap => values ≠ 1 ∧ values ≠ games

theorem applies_select (values games : Nat) : (select values games).Applies values games := by
  unfold select
  split_ifs <;> simp_all [Applies]

/-- The place of the value, among so many, that a match is given. -/
def place (values i : Nat) : Nat := if values = 1 then 0 else i

theorem getElem?_spread {rule : ScalarRule} {values : List β} {games i : Nat}
    (applies : rule.Applies values.length games) (inside : i < games) :
    (rule.spread values games)[i]? = some values[place values.length i]? := by
  cases rule with
  | none =>
    obtain rfl := List.length_eq_zero_iff.mp applies
    rw [spread, List.getElem?_replicate_of_lt inside]
    rfl
  | broadcast =>
    have one : values.length = 1 := applies
    rw [spread, List.getElem?_replicate_of_lt inside, List.head?_eq_getElem?, place, if_pos one]
  | positional | overlap => rw [spread, getElem?_map_range _ inside, place, if_neg applies.1]

end ScalarRule

namespace PairRule

def Applies (values games : Nat) : PairRule → Prop
  | .none => values = 0
  | .broadcast => values = 1
  | .homeAway => values = 2 ∧ games = 1
  | .consecutivePairs => values = 2 * games
  | .partialPairs => values % 2 = 0
  | .perMatch => values ≠ 1 ∧ values % 2 = 1

theorem applies_select (values games : Nat) : (select values games).Applies values games := by
  unfold select
  split_ifs <;> simp_all [Applies]

/-- The places of the values, among so many, that the two sides of a match are given. -/
def places (values i : Nat) : Nat × Nat :=
  if values = 1 then (0, 0) else if values % 2 = 0 then (2 * i, 2 * i + 1) else (i, i)

theorem places_of_even {values : Nat} (even : values % 2 = 0) (i : Nat) :
    places values i = (2 * i, 2 * i + 1) := by
  rw [places, if_neg (by omega), if_pos even]

theorem getElem?_spread {rule : PairRule} {values : List β} {games i : Nat}
    (applies : rule.Applies values.length games) (inside : i < games) :
    (rule.spread values games)[i]? =
      some (values[(places values.length i).1]?, values[(places values.length i).2]?) := by
  cases rule with
  | none =>
    obtain rfl := List.length_eq_zero_iff.mp applies
    rw [spread, List.getElem?_replicate_of_lt inside]
    rfl
  | broadcast =>
    have one : values.length = 1 := applies
    rw [spread, List.getElem?_replicate_of_lt inside, List.head?_eq_getElem?, places, if_pos one]
  | homeAway | consecutivePairs | partialPairs =>
    have even : values.length % 2 = 0 := by simp only [Applies] at applies; omega
    rw [spread, getElem?_map_range _ inside, places_of_even even]
  | perMatch =>
    obtain ⟨several, odd⟩ : values.length ≠ 1 ∧ values.length % 2 = 1 := applies
    rw [spread, getElem?_map_range _ inside, places, if_neg several, if_neg (by omega)]

end PairRule

/-- Puts values in place of those that are there, and keeps what is there where none are given. -/
def putOver (given there : List (Option β × Option β)) : List (Option β × Option β) :=
  there.zipWith (fun old new => (new.1 <|> old.1, new.2 <|> old.2)) given

theorem getElem?_putOver {given there : List (Option β × Option β)} {i : Nat}
    {new old : Option β × Option β} (hg : given[i]? = some new) (ht : there[i]? = some old) :
    (putOver given there)[i]? = some (new.1 <|> old.1, new.2 <|> old.2) := by
  rw [putOver, List.getElem?_zipWith, hg, ht]

@[simp] theorem length_putOver (given there : List (Option β × Option β)) :
    (putOver given there).length = min there.length given.length := List.length_zipWith

/-- What a rule leaves for the two sides of every match, starting with nothing: values that name no
side come first, those of the home side are put over them, then those of the away side. -/
def SideRule.inPlace (rule : SideRule) (both home away : List β) (games : Nat) :
    List (Option β × Option β) :=
  let blank := List.replicate games (none, none)
  match rule with
  | .unmarked rule => putOver (rule.spread both games) blank
  | .explicitSides =>
    let unmarked := putOver ((PairRule.select both.length games).spread both games) blank
    let homes := putOver ((Assignment.scalars home games).map fun v => (v, none)) unmarked
    putOver ((Assignment.scalars away games).map fun v => (none, v)) homes

@[simp] theorem SideRule.length_inPlace (rule : SideRule) (both home away : List β) (games : Nat) :
    (rule.inPlace both home away games).length = games := by
  cases rule <;> simp [inPlace]

namespace Assignment

variable {values both home away : List β} {games i : Nat}

def scalarAt (values : List β) (games i : Nat) : Option β := (scalars values games)[i]?.join

/-- What the rule for values that name no side gives the two sides of a match. -/
def pairAt (both : List β) (games i : Nat) : Option β × Option β :=
  ((PairRule.select both.length games).spread both games)[i]?.getD (none, none)

theorem getElem?_scalars (inside : i < games) :
    (scalars values games)[i]? = some (scalarAt values games i) := by
  rw [scalarAt, scalars, ScalarRule.getElem?_spread (ScalarRule.applies_select _ _) inside]
  rfl

theorem getElem?_pairs (both : List β) (inside : i < games) :
    ((PairRule.select both.length games).spread both games)[i]? = some (pairAt both games i) := by
  rw [pairAt, PairRule.getElem?_spread (PairRule.applies_select _ _) inside]
  rfl

theorem getElem?_sides (inside : i < games) : (sides both home away games)[i]? =
    some (scalarAt home games i <|> (pairAt both games i).1,
      scalarAt away games i <|> (pairAt both games i).2) := by
  have named : ((scalars home games).zip (scalars away games))[i]? =
      some (scalarAt home games i, scalarAt away games i) :=
    List.getElem?_zip_eq_some.mpr ⟨getElem?_scalars inside, getElem?_scalars inside⟩
  rw [sides, List.getElem?_zipWith, getElem?_pairs both inside, named]

theorem sides_eq_map (both home away : List β) (games : Nat) : sides both home away games =
    (List.range games).map fun i => (scalarAt home games i <|> (pairAt both games i).1,
      scalarAt away games i <|> (pairAt both games i).2) := by
  apply List.ext_getElem?
  intro i
  by_cases inside : i < games
  · rw [getElem?_sides inside, getElem?_map_range _ inside]
  · rw [List.getElem?_eq_none (by simpa using inside),
      List.getElem?_eq_none (by simpa using inside)]

theorem scalarAt_nil (games i : Nat) : scalarAt ([] : List β) games i = none := by
  rw [scalarAt, Option.join_eq_none_iff]
  by_cases inside : i < games
  · exact .inr (List.getElem?_replicate_of_lt inside)
  · exact .inl (List.getElem?_eq_none (by simpa using inside))

theorem inPlace_select (both home away : List β) (games : Nat) :
    (SideRule.select (!home.isEmpty || !away.isEmpty) both.length games).inPlace both home away
      games = sides both home away games := by
  apply List.ext_getElem?
  intro i
  by_cases inside : i < games
  · have blank : (List.replicate games ((none, none) : Option β × Option β))[i]? =
        some (none, none) := List.getElem?_replicate_of_lt inside
    have unmarked := getElem?_putOver (getElem?_pairs both inside) blank
    rw [getElem?_sides inside]
    cases marked : !home.isEmpty || !away.isEmpty with
    | false =>
      obtain ⟨rfl, rfl⟩ : home = [] ∧ away = [] := by simpa using marked
      rw [scalarAt_nil]
      simpa [SideRule.select, SideRule.inPlace] using unmarked
    | true =>
      have homes : ((scalars home games).map fun v => (v, (none : Option β)))[i]? =
          some (scalarAt home games i, none) := by
        rw [List.getElem?_map, getElem?_scalars inside, Option.map_some]
      have aways : ((scalars away games).map fun v => ((none : Option β), v))[i]? =
          some (none, scalarAt away games i) := by
        rw [List.getElem?_map, getElem?_scalars inside, Option.map_some]
      have last := getElem?_putOver aways (getElem?_putOver homes unmarked)
      simpa [SideRule.select, SideRule.inPlace] using last
  · rw [List.getElem?_eq_none (by simpa using inside),
      List.getElem?_eq_none (by simpa using inside)]

end Assignment

end

namespace Assignment

variable {α : Type}

theorem rules_ofParameters {p : Parameters α} {games : Nat} {rules : AssignmentRules}
    (h : rules ∈ (ofParameters p games).rules) : rules = rulesFor p games := by
  unfold ofParameters at h
  split at h
  · cases h
  · exact (Option.some.inj h).symm

theorem map_sides_range {β : Type} (both home away : List β) (games : Nat) :
    (List.range games).map (fun i => ((sides both home away games)[i]?.bind (·.1),
      (sides both home away games)[i]?.bind (·.2))) = sides both home away games := by
  conv_rhs => rw [sides_eq_map]
  apply List.map_congr_left
  intro i hi
  rw [getElem?_sides (List.mem_range.mp hi)]
  rfl

theorem games_ofParameters_eq (p : Parameters α) (games : Nat) :
    (ofParameters p games).games = valuesFor p games := by
  cases games with
  | zero => rfl
  | succ games => exact games_ofParameters games.succ_pos

theorem fse_ofParameters (p : Parameters α) (games : Nat) :
    (ofParameters p games).games.map (fun g => (g.fseHome, g.fseAway)) =
      sides (p.fse.map boundPercent) (p.fseHome.map boundPercent) (p.fseAway.map boundPercent)
        games := by
  rw [games_ofParameters_eq, valuesFor, List.map_map]
  exact map_sides_range _ _ _ games

theorem tys_ofParameters (p : Parameters α) (games : Nat) :
    (ofParameters p games).games.map (fun g => (g.tysHome, g.tysAway)) =
      sides p.tys p.tysHome p.tysAway games := by
  rw [games_ofParameters_eq, valuesFor, List.map_map]
  exact map_sides_range _ _ _ games

section

variable {β : Type} {both home away home' away' : List β} {games : Nat}
  {given others : List (FixtureValues α)} {pair : FixtureValues α → Option β × Option β}

theorem home_of_sides (h : given.map pair = sides both home away games) :
    given.map (fun g => (pair g).1) =
      (List.range games).map fun i => scalarAt home games i <|> (pairAt both games i).1 := by
  have first := congrArg (List.map Prod.fst) h
  rw [List.map_map, sides_eq_map, List.map_map] at first
  exact first

theorem away_of_sides (h : given.map pair = sides both home away games) :
    given.map (fun g => (pair g).2) =
      (List.range games).map fun i => scalarAt away games i <|> (pairAt both games i).2 := by
  have second := congrArg (List.map Prod.snd) h
  rw [List.map_map, sides_eq_map, List.map_map] at second
  exact second

theorem home_eq_of_sides (h : given.map pair = sides both home away games)
    (h' : others.map pair = sides both home away' games) :
    others.map (fun g => (pair g).1) = given.map fun g => (pair g).1 :=
  (home_of_sides h').trans (home_of_sides h).symm

theorem away_eq_of_sides (h : given.map pair = sides both home away games)
    (h' : others.map pair = sides both home' away games) :
    others.map (fun g => (pair g).2) = given.map fun g => (pair g).2 :=
  (away_of_sides h').trans (away_of_sides h).symm

theorem eq_of_map_eq_range {γ : Type} {f : FixtureValues α → γ} {value : Nat → γ}
    (h : given.map f = (List.range games).map value) {i : Nat} {g : FixtureValues α}
    (at_i : given[i]? = some g) : f g = value i := by
  have listed : (given.map f)[i]? = some (f g) := by rw [List.getElem?_map, at_i, Option.map_some]
  have inside : i < games := by
    have bound := (List.getElem?_eq_some_iff.mp listed).1
    simpa [h] using bound
  rw [h, getElem?_map_range _ inside] at listed
  exact (Option.some.inj listed).symm

end

theorem inPlace_of_rules {p : Parameters α} {games : Nat} {rules : AssignmentRules}
    (h : rules ∈ (ofParameters p games).rules) :
    (ofParameters p games).games.map (fun g => (g.fseHome, g.fseAway)) =
        rules.fse.inPlace (p.fse.map boundPercent) (p.fseHome.map boundPercent)
          (p.fseAway.map boundPercent) games ∧
      (ofParameters p games).games.map (fun g => (g.tysHome, g.tysAway)) =
        rules.tys.inPlace p.tys p.tysHome p.tysAway games := by
  obtain rfl := rules_ofParameters h
  rw [fse_ofParameters, tys_ofParameters, ← inPlace_select, ← inPlace_select]
  simp [rulesFor, Parameters.hasFseSides, Parameters.hasTysSides]

/-- What the chosen rules leave for the sides of the matches, one value put over another, is for
each side the value that names it or else the value that names no side, or nothing.  So parameters
that agree on the values for a side and for both sides of a field agree on what its matches are
given there, whatever the rules are that other values bring about. -/
theorem sides_apart (p q : Parameters α) (games : Nat) :
    let given := (ofParameters p games).games
    let others := (ofParameters q games).games
    let fse := p.fse.map boundPercent
    let fseHome := p.fseHome.map boundPercent
    let fseAway := p.fseAway.map boundPercent
    (∀ rules ∈ (ofParameters p games).rules,
      given.map (fun g => (g.fseHome, g.fseAway)) = rules.fse.inPlace fse fseHome fseAway games ∧
      given.map (fun g => (g.tysHome, g.tysAway)) =
        rules.tys.inPlace p.tys p.tysHome p.tysAway games) ∧
    (∀ i < games, ∃ g, given[i]? = some g ∧
      g.fseHome = (scalarAt fseHome games i <|> (pairAt fse games i).1) ∧
      g.fseAway = (scalarAt fseAway games i <|> (pairAt fse games i).2) ∧
      g.tysHome = (scalarAt p.tysHome games i <|> (pairAt p.tys games i).1) ∧
      g.tysAway = (scalarAt p.tysAway games i <|> (pairAt p.tys games i).2)) ∧
    (q.fse = p.fse → q.fseHome = p.fseHome → others.map (·.fseHome) = given.map (·.fseHome)) ∧
    (q.fse = p.fse → q.fseAway = p.fseAway → others.map (·.fseAway) = given.map (·.fseAway)) ∧
    (q.tys = p.tys → q.tysHome = p.tysHome → others.map (·.tysHome) = given.map (·.tysHome)) ∧
    (q.tys = p.tys → q.tysAway = p.tysAway → others.map (·.tysAway) = given.map (·.tysAway)) := by
  intro given others fse fseHome fseAway
  have fse_given := fse_ofParameters p games
  have tys_given := tys_ofParameters p games
  have fse_others := fse_ofParameters q games
  have tys_others := tys_ofParameters q games
  refine ⟨fun rules h => inPlace_of_rules h, ?_, ?_, ?_, ?_, ?_⟩
  · intro i inside
    have bound : i < given.length := by rwa [length_games_ofParameters]
    have at_i : given[i]? = some given[i] := List.getElem?_eq_getElem bound
    exact ⟨given[i], at_i, eq_of_map_eq_range (home_of_sides fse_given) at_i,
      eq_of_map_eq_range (away_of_sides fse_given) at_i,
      eq_of_map_eq_range (home_of_sides tys_given) at_i,
      eq_of_map_eq_range (away_of_sides tys_given) at_i⟩
  · intro both home
    rw [both, home] at fse_others
    exact home_eq_of_sides fse_given fse_others
  · intro both away
    rw [both, away] at fse_others
    exact away_eq_of_sides fse_given fse_others
  · intro both home
    rw [both, home] at tys_others
    exact home_eq_of_sides tys_given tys_others
  · intro both away
    rw [both, away] at tys_others
    exact away_eq_of_sides tys_given tys_others

/-- Values for both sides and for one side, fewer of these than there are matches. -/
def markedParameters : Parameters ℚ :=
  { Parameters.none with
    fse := [60, 70, 50], fseHome := [90, 80], tys := [.large, .small], tysAway := [.heavy] }

/-- The same values for the home side of FSE, and others elsewhere. -/
def remarkedParameters : Parameters ℚ :=
  { Parameters.none with
    fse := [60, 70, 50], fseHome := [90, 80], fseAway := [10], tys := [.small] }

theorem sides_apart_marked : remarkedParameters.fse = markedParameters.fse ∧
    remarkedParameters.fseHome = markedParameters.fseHome ∧
    (ofParameters remarkedParameters 3).games.map (·.fseHome) =
      (ofParameters markedParameters 3).games.map (·.fseHome) ∧
    (ofParameters markedParameters 3).games.map (fun g => (g.fseHome, g.fseAway)) =
      [(some 90, some 60), (some 80, some 70), (some 50, some 50)] ∧
    (ofParameters markedParameters 3).games.map (fun g => (g.tysHome, g.tysAway)) =
      [(some .large, some .heavy), (none, some .heavy), (none, some .heavy)] :=
  ⟨rfl, rfl, (sides_apart markedParameters remarkedParameters 3).2.2.1 rfl rfl, by decide,
    by decide⟩

end Assignment

end Wager
