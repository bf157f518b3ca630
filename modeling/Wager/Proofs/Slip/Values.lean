import Wager.Proofs.StoredMatch
import Wager.Slip.Parse

/-!
# Values of a slip

The prices taken out of a slip are above one and its FID values are on rungs.  Assignment spreads
these values over the matches and adds none, and brings percentages into their range.
-/

namespace Wager

section

variable {β : Type}

theorem ScalarRule.mem_spread {rule : ScalarRule} {values : List β} {games : Nat} {v : β}
    (h : some v ∈ rule.spread values games) : v ∈ values := by
  cases rule with
  | none => simp [spread] at h
  | broadcast =>
    have first := List.eq_of_mem_replicate h
    exact List.mem_of_mem_head? first.symm
  | positional | overlap =>
    obtain ⟨i, -, at_i⟩ := List.mem_map.mp h
    exact List.mem_of_getElem? at_i

theorem PairRule.mem_spread {rule : PairRule} {values : List β} {games : Nat}
    {pair : Option β × Option β} (h : pair ∈ rule.spread values games) :
    (∀ v ∈ pair.1, v ∈ values) ∧ ∀ v ∈ pair.2, v ∈ values := by
  cases rule with
  | none =>
    obtain rfl := List.eq_of_mem_replicate h
    simp
  | broadcast =>
    obtain rfl := List.eq_of_mem_replicate h
    exact ⟨fun v => List.mem_of_mem_head?, fun v => List.mem_of_mem_head?⟩
  | homeAway | consecutivePairs | partialPairs | perMatch =>
    obtain ⟨i, -, rfl⟩ := List.mem_map.mp h
    exact ⟨fun v => List.mem_of_getElem?, fun v => List.mem_of_getElem?⟩

theorem OddsRule.mem_spread {rule : OddsRule} {groups : List (List β)} {values : List β}
    {games : Nat} {prices : List β} (h : prices ∈ rule.spread groups values games) {v : β}
    (hv : v ∈ prices) : v ∈ values ∨ ∃ g ∈ groups, v ∈ g := by
  cases rule with
  | none =>
    obtain rfl := List.eq_of_mem_replicate h
    cases hv
  | perGroup =>
    obtain ⟨i, -, rfl⟩ := List.mem_map.mp h
    cases group : groups[i]? with
    | none => simp [group] at hv
    | some g => exact .inr ⟨g, List.mem_of_getElem? group, by simpa [group] using hv⟩
  | broadcast =>
    obtain rfl := List.eq_of_mem_replicate h
    exact .inl (List.mem_of_mem_take hv)
  | positional | overlap =>
    obtain ⟨i, -, rfl⟩ := List.mem_map.mp h
    exact .inl (List.mem_of_getElem? (Option.mem_toList.mp hv))
  | singleMatch =>
    obtain rfl := List.eq_of_mem_replicate h
    exact .inl hv

end

def Mode.IsLabel (t : Text) : Prop := ∃ m, t = label m

def Tys.IsCode (t : Text) : Prop := ∃ g, t = [code g]

section

variable {α : Type} [Scalar α]

/-- Whether the prices and FID values of a slip can be stored. -/
structure Parameters.InRange (p : Parameters α) : Prop where
  odds : ∀ x ∈ p.odds, 1.0 < x
  oddsGroups : ∀ g ∈ p.oddsGroups, ∀ x ∈ g, 1.0 < x
  fid : ∀ x ∈ p.fid, x ∈ Fid.rungs

structure FixtureValues.InRange (v : FixtureValues α) : Prop where
  conf : ∀ n ∈ v.conf, Percent.InRange n
  fid : ∀ x ∈ v.fid, x ∈ Fid.rungs
  fseHome : ∀ n ∈ v.fseHome, Percent.InRange n
  fseAway : ∀ n ∈ v.fseAway, Percent.InRange n
  odds : ∀ x ∈ v.odds, 1.0 < x

/-- Whether the defaults of a draft can be stored. -/
structure Config.InRange (config : Config α) : Prop where
  conf : Percent.InRange config.defaultConf
  mode : Mode.IsLabel config.defaultMode
  tys : Tys.IsCode config.defaultTys
  fid : config.defaultFid ∈ Fid.rungs
  fse : Percent.InRange config.defaultFse

theorem Percent.inRange_half : InRange 50 := by
  unfold InRange
  omega

theorem Config.inRange_standard : (standard : Config α).InRange where
  conf := Percent.inRange_half
  mode := ⟨.standard, rfl⟩
  tys := ⟨.medium, rfl⟩
  fid := by simp [standard, Fid.rungs]
  fse := Percent.inRange_half

end

namespace Extraction

variable {α : Type} [Scalar α]

theorem lt_of_mem_prices {typed : List Text} {x : α} (h : x ∈ prices typed) : 1.0 < x := by
  obtain ⟨t, -, read⟩ := List.mem_filterMap.mp h
  simpa using (Option.filter_eq_some_iff.mp read).2

theorem mem_rungs_of_mem_fidRungs {typed : List Text} {x : α} (h : x ∈ fidRungs typed) :
    x ∈ Fid.rungs := by
  obtain ⟨t, -, rfl⟩ := List.mem_map.mp h
  cases (Scalar.ofText? t : Option α) with
  | none => simp [Fid.middle, Fid.rungs]
  | some y => exact Fid.snap_mem_rungs y

theorem inRange_ofText (t : Text) : (ofText t : Extraction α).params.InRange := by
  have group {typed : List (List Text)} {g : List α}
      (hg : g ∈ (typed.map prices).filter (!·.isEmpty)) : ∀ x ∈ g, 1.0 < x := by
    obtain ⟨numbers, -, rfl⟩ := List.mem_map.mp (List.mem_filter.mp hg).1
    exact fun x => lt_of_mem_prices
  -- Whatever was cut out before, prices and FID values are read from what was typed.
  unfold ofText
  iterate 9 split
  constructor
  · intro x hx
    obtain ⟨g, hg, hx⟩ := List.mem_flatten.mp hx
    exact group hg x hx
  · exact fun g => group
  · exact fun x => mem_rungs_of_mem_fidRungs

end Extraction

namespace Assignment

theorem inRange_boundPercent (n : Int) : Percent.InRange (boundPercent n) := by
  unfold Percent.InRange boundPercent
  omega

section

variable {β : Type}

theorem mem_of_mem_scalars {values : List β} {games i : Nat} {v : β}
    (h : v ∈ ((scalars values games)[i]?).join) : v ∈ values :=
  ScalarRule.mem_spread (List.mem_of_getElem? (Option.join_eq_some_iff.mp h))

theorem mem_of_mem_sides {both home away : List β} {games : Nat} {pair : Option β × Option β}
    (h : pair ∈ sides both home away games) :
    (∀ v ∈ pair.1, v ∈ both ∨ v ∈ home) ∧ ∀ v ∈ pair.2, v ∈ both ∨ v ∈ away := by
  rw [sides, ← List.map_uncurry_zip_eq_zipWith] at h
  obtain ⟨⟨unmarked, named⟩, member, rfl⟩ := List.mem_map.mp h
  obtain ⟨first, second⟩ := List.of_mem_zip member
  obtain ⟨homes, aways⟩ := List.of_mem_zip second
  have unmarked_mem := PairRule.mem_spread first
  constructor
  · intro v hv
    rcases (Option.orElse_eq_some _ _ _).mp hv with given | ⟨-, rest⟩
    · exact .inr (ScalarRule.mem_spread (given ▸ homes))
    · exact .inl (unmarked_mem.1 v rest)
  · intro v hv
    rcases (Option.orElse_eq_some _ _ _).mp hv with given | ⟨-, rest⟩
    · exact .inr (ScalarRule.mem_spread (given ▸ aways))
    · exact .inl (unmarked_mem.2 v rest)

end

theorem inRange_of_mem_map {values : List Int} {n : Int} (h : n ∈ values.map boundPercent) :
    Percent.InRange n := by
  obtain ⟨m, -, rfl⟩ := List.mem_map.mp h
  exact inRange_boundPercent m

variable {α : Type} [Scalar α]

theorem inRange_of_mem_games {p : Parameters α} (range : p.InRange) {games : Nat}
    {v : FixtureValues α} (h : v ∈ (ofParameters p games).games) : v.InRange := by
  have some_game : v ∈ valuesFor p games := by
    unfold ofParameters at h
    split at h
    · cases h
    · exact h
  obtain ⟨i, -, rfl⟩ := List.mem_map.mp some_game
  have side {m : Int} {xs ys : List Int}
      (hm : m ∈ xs.map boundPercent ∨ m ∈ ys.map boundPercent) : Percent.InRange m :=
    hm.elim inRange_of_mem_map inRange_of_mem_map
  refine ⟨?_, ?_, ?_, ?_, ?_⟩
  · exact fun n hn => inRange_of_mem_map (mem_of_mem_scalars hn)
  · exact fun x hx => range.fid x (mem_of_mem_scalars hx)
  · intro n hn
    obtain ⟨pair, at_i, hn⟩ := Option.bind_eq_some_iff.mp hn
    exact side ((mem_of_mem_sides (List.mem_of_getElem? at_i)).1 n hn)
  · intro n hn
    obtain ⟨pair, at_i, hn⟩ := Option.bind_eq_some_iff.mp hn
    exact side ((mem_of_mem_sides (List.mem_of_getElem? at_i)).2 n hn)
  · intro x hx
    dsimp only at hx
    cases at_i : ((OddsRule.select p.oddsGroups.length p.odds.length games).spread p.oddsGroups
        p.odds games)[i]? with
    | none => simp [at_i] at hx
    | some prices =>
      rw [at_i, Option.getD_some] at hx
      rcases OddsRule.mem_spread (List.mem_of_getElem? at_i) hx with odds | ⟨g, hg, hx⟩
      · exact range.odds x odds
      · exact range.oddsGroups g hg x hx

end Assignment

end Wager
