import Wager.Proofs.Distribution.Match
import Wager.Proofs.Kelly.Edge
import Wager.Proofs.Scalar.Real
import Wager.Stake.Basic

/-!
# Recommended stakes

In exact arithmetic every list of stored matches has a stake.  It is the rounded Kelly amount under
the risk cap, the divisor lies between those of the modes, and more capital never means a smaller
stake.
-/

namespace Wager

variable {α : Type} [ExactScalar α]

theorem exists_mapM_ok {β γ ε : Type} {f : β → Except ε γ} (each : ∀ b, ∃ c, f b = .ok c)
    (l : List β) : ∃ out, l.mapM f = .ok out := by
  choose g hg using each
  exact ⟨l.map g, by rw [funext hg, mapM_ok]⟩

namespace SizedMatch

theorem exists_pricedEntries (m : SizedMatch α) : ∃ entries, m.pricedEntries = .ok entries := by
  unfold pricedEntries
  simp only [Datum.number?_eq]
  obtain ⟨read, h⟩ := exists_mapM_ok (ε := Datum.Overflow)
    (fun e : Datum α × Datum α => ⟨(e.1, e.2.value?), rfl⟩) m.entries
  exact ⟨_, congrArg (· >>= _) h⟩

theorem exists_probability (m : SizedMatch α) : ∃ chance, m.probability = .ok chance := by
  simp only [probability, outlook, Datum.numberOr_eq, Datum.number?_eq]
  exact ⟨_, rfl⟩

theorem exists_distribution (m : SizedMatch α) (defaultOdds : α) :
    ∃ d, m.distribution defaultOdds = .ok d := by
  obtain ⟨entries, priced⟩ := m.exists_pricedEntries
  obtain ⟨chance, estimated⟩ := m.exists_probability
  rw [distribution, Datum.numberOr_eq, priced, estimated]
  exact ⟨_, MatchDistribution.build_ofEntries entries (.real chance)
    (.real ((m.fallbackOdds.orElse m.odds).value?.getD defaultOdds)) none⟩

end SizedMatch

namespace Mode

theorem kellyDivisor_pos (m : Mode) : (0 : α) < m.kellyDivisor := by
  cases m <;> norm_num [kellyDivisor, ExactScalar.ofScientific_eq]

end Mode

namespace Stake

theorem divisorOf_label (m : Mode) (config : Config α) :
    divisorOf (.text m.label) config = m.kellyDivisor := by
  rw [divisorOf, SizedMatch.modeOf, Mode.ofLabel?_label]
  rfl

theorem meanDivisor_labels {modes : List Mode} (some_mode : modes ≠ []) (config : Config α) :
    meanDivisor (modes.map fun m => .text m.label) config =
      (modes.map Mode.kellyDivisor).sum / modes.length := by
  have divisors : (modes.map fun m => Datum.text (α := α) m.label).map (divisorOf · config) =
      modes.map Mode.kellyDivisor := by
    rw [List.map_map]
    exact List.map_congr_left fun m _ => divisorOf_label m config
  have number : (0 : α) < modes.length := by
    exact_mod_cast List.length_pos_of_ne_nil some_mode
  have total : 0 < (modes.map Mode.kellyDivisor : List α).sum := by
    apply List.sum_pos _ _ (by simpa using some_mode)
    intro x hx
    obtain ⟨m, -, rfl⟩ := List.mem_map.mp hx
    exact m.kellyDivisor_pos
  have positive := div_pos total number
  have nonempty : (modes.map fun m => Datum.text (α := α) m.label).isEmpty = false := by
    simpa using some_mode
  rw [meanDivisor, nonempty, if_neg Bool.false_ne_true, divisors, List.length_map]
  simp [positive]

theorem meanDivisor_between {modes : List Mode} (some_mode : modes ≠ []) (config : Config α) :
    (∃ low ∈ modes, low.kellyDivisor ≤ meanDivisor (modes.map fun m => .text m.label) config) ∧
      ∃ high ∈ modes,
        meanDivisor (modes.map fun m => .text m.label) config ≤ high.kellyDivisor := by
  rw [meanDivisor_labels some_mode]
  set mean : α := (modes.map Mode.kellyDivisor).sum / modes.length
  have number : (modes.length : α) ≠ 0 := by
    exact_mod_cast (List.length_pos_of_ne_nil some_mode).ne'
  -- The divisors sum up to as much as their mean does in every place, so none of the two sums can
  -- be larger place by place.
  have total : (modes.map Mode.kellyDivisor).sum = (modes.map fun _ => mean).sum := by
    rw [List.map_const', List.sum_replicate, nsmul_eq_mul, mul_div_cancel₀ _ number]
  exact ⟨List.exists_le_of_sum_le some_mode _ _ total.le,
    List.exists_le_of_sum_le some_mode _ _ total.ge⟩

theorem liftOf_nonneg {rating : α} (h : 0 ≤ rating) : 0 ≤ liftOf rating := by
  have base : (0 : α) ≤ 0.88 := by norm_num [ExactScalar.ofScientific_eq]
  have slope : (0 : α) ≤ 0.24 := by norm_num [ExactScalar.ofScientific_eq]
  exact add_nonneg base (mul_nonneg h slope)

theorem kellyOf_nonneg (p : Parlay α) (config : Config α) : 0 ≤ kellyOf p config := by
  have limit : Scalar.finite? config.maxKellyFraction =
      (Datum.real config.maxKellyFraction).value? := by
    rw [Scalar.finite?, ExactScalar.isFinite_eq, if_pos rfl]
    rfl
  rw [kellyOf, limit]
  rcases Kelly.optimalFraction_cases (p.states.filterMap fun s => Kelly.Prospect.keep?
      (Scalar.finite? s.probability) (Scalar.finite? s.net)) (.real config.maxKellyFraction) with
    none | ⟨positive, found⟩
  · exact none.ge
  · rw [found]
    exact (Kelly.search_mem_Icc _ positive.le).1

theorem amountOf_of_nonneg {rounded : Int} (h : 0 ≤ rounded) (riskCap : Int) :
    amountOf rounded riskCap = min riskCap rounded := by
  rw [amountOf, max_eq_right h]

theorem reasonOf_ne_noGrowth (rounded riskCap : Int) : reasonOf rounded riskCap ≠ .noGrowth := by
  unfold reasonOf
  split <;> simp

theorem reasonOf_eq_capped_iff {rounded : Int} (h : 0 ≤ rounded) (riskCap : Int) :
    reasonOf rounded riskCap = .capped ↔ riskCap < rounded := by
  rw [reasonOf, amountOf_of_nonneg h]
  split
  next capped => simp [capped.2]
  next free =>
    have within : ¬riskCap < rounded := fun above => free ⟨min_eq_left above.le, above⟩
    simp [within]

theorem riskCap_eq (config : Config α) : config.riskCap =
    .ok (Scalar.scaled 0 (config.initialCapital * config.riskCapRatio)) :=
  Scalar.round_eq _

/-- How the stake on a ticket follows from its Kelly fraction, the modes and the rating. -/
structure Follows (p : Parlay α) (modes : List (Datum α)) (rating : α) (config : Config α)
    (s : Stake α) : Prop where
  riskCap : config.riskCap = .ok s.riskCap
  fraction : s.kellyFraction = kellyOf p config
  divisor : s.kellyDivisor = meanDivisor modes config
  rating : s.rating = Scalar.clamp rating 0.0 1.0
  lift : s.lift = liftOf s.rating
  nonneg : 0 ≤ s.amount
  le_riskCap : s.amount ≤ s.riskCap
  idle : (s.amount = 0 ∧ s.reason = .noGrowth) ↔ s.kellyFraction = 0
  sized : s.kellyFraction ≠ 0 → ∃ rounded,
    Scalar.round (config.initialCapital * s.kellyFraction / s.kellyDivisor * s.lift) =
        .ok rounded ∧
      s.amount = min s.riskCap rounded ∧ (s.reason = .capped ↔ s.riskCap < rounded)

section

variable {p : Parlay α} {modes : List (Datum α)} {rating : α} {config : Config α}

theorem recommend_of_kelly_eq_zero (idle : kellyOf p config = 0) :
    recommend p modes (.real rating) config =
      .ok ⟨0, meanDivisor modes config, Scalar.clamp rating 0.0 1.0,
        liftOf (Scalar.clamp rating 0.0 1.0),
        Scalar.scaled 0 (config.initialCapital * config.riskCapRatio), 0, 0, .noGrowth⟩ := by
  have stop : kellyOf p config ≤ 0.0 := by simp [idle]
  rw [recommend, riskCap_eq, Datum.numberOr_eq]
  change (if kellyOf p config ≤ 0.0 then _ else _) = _
  rw [if_pos stop]
  simp only [Scalar.zero_literal]
  rfl

theorem recommend_of_kelly_pos (growing : 0 < kellyOf p config)
    (positive : 0 < meanDivisor modes config) :
    let riskCap := Scalar.scaled 0 (config.initialCapital * config.riskCapRatio)
    let raw := config.initialCapital * kellyOf p config / meanDivisor modes config
    let lift := liftOf (Scalar.clamp rating 0.0 1.0)
    let rounded := Scalar.scaled 0 (raw * lift)
    recommend p modes (.real rating) config =
      .ok ⟨kellyOf p config, meanDivisor modes config, Scalar.clamp rating 0.0 1.0, lift, riskCap,
        raw, amountOf rounded riskCap, reasonOf rounded riskCap⟩ := by
  intro riskCap raw lift rounded
  have go : ¬kellyOf p config ≤ 0.0 := by simpa using growing
  have divides : ¬Scalar.isZero (meanDivisor modes config) = true := by
    simp [Scalar.isZero, positive]
  rw [recommend, riskCap_eq, Datum.numberOr_eq]
  change (if kellyOf p config ≤ 0.0 then _ else if Scalar.isZero _ = true then _ else _) = _
  rw [if_neg go, if_neg divides]
  simp only [Scalar.round_eq]
  rfl

theorem exists_recommend (p : Parlay α) (modes : List (Datum α)) (rating : α) {config : Config α}
    (capital : 0 ≤ config.initialCapital) (ratio : 0 ≤ config.riskCapRatio)
    (positive : 0 < meanDivisor modes config) :
    ∃ s, recommend p modes (.real rating) config = .ok s ∧ s.Follows p modes rating config := by
  have cap := Scalar.scaled_nonneg 0 (mul_nonneg capital ratio)
  rcases (kellyOf_nonneg p config).eq_or_lt with idle | growing
  · refine ⟨_, recommend_of_kelly_eq_zero idle.symm, ?_⟩
    constructor
    case riskCap => exact riskCap_eq config
    case fraction => exact idle
    case le_riskCap => exact cap
    case sized => exact fun growing => absurd rfl growing
    all_goals simp
  · refine ⟨_, recommend_of_kelly_pos growing positive, ?_⟩
    have rate : (0 : α) ≤ Scalar.clamp rating 0.0 1.0 := by
      simpa using Scalar.le_clamp rating (0.0 : α) 1.0
    have whole : 0 ≤ Scalar.scaled 0 (config.initialCapital * kellyOf p config /
        meanDivisor modes config * liftOf (Scalar.clamp rating 0.0 1.0)) := by
      apply Scalar.scaled_nonneg
      exact mul_nonneg (div_nonneg (mul_nonneg capital growing.le) positive.le) (liftOf_nonneg rate)
    constructor
    case riskCap => exact riskCap_eq config
    case nonneg => exact le_min cap (le_max_left _ _)
    case le_riskCap => exact min_le_left _ _
    case idle => exact iff_of_false (fun h => reasonOf_ne_noGrowth _ _ h.2) growing.ne'
    case sized =>
      intro _
      exact ⟨_, Scalar.round_eq _, amountOf_of_nonneg whole _, reasonOf_eq_capped_iff whole _⟩
    all_goals rfl

theorem Follows.amount_le {s t : Stake α} {more : α} (hs : s.Follows p modes rating config)
    (ht : t.Follows p modes rating { config with initialCapital := more })
    (raised : config.initialCapital ≤ more) (ratio : 0 ≤ config.riskCapRatio)
    (positive : 0 < meanDivisor modes config) : s.amount ≤ t.amount := by
  have fraction : t.kellyFraction = s.kellyFraction := ht.fraction.trans hs.fraction.symm
  have divisor : t.kellyDivisor = s.kellyDivisor := ht.divisor.trans hs.divisor.symm
  have rate : t.rating = s.rating := ht.rating.trans hs.rating.symm
  by_cases idle : s.kellyFraction = 0
  · rw [(hs.idle.mpr idle).1]
    exact ht.nonneg
  · obtain ⟨low, round_low, amount_low, -⟩ := hs.sized idle
    obtain ⟨high, round_high, amount_high, -⟩ := ht.sized (fraction ▸ idle)
    have caps : s.riskCap ≤ t.riskCap := by
      have cap_low := hs.riskCap
      have cap_high := ht.riskCap
      rw [riskCap_eq] at cap_low cap_high
      rw [← Except.ok.inj cap_low, ← Except.ok.inj cap_high]
      exact Scalar.scaled_mono 0 (mul_le_mul_of_nonneg_right raised ratio)
    have rounded : low ≤ high := by
      rw [Scalar.round_eq] at round_low round_high
      rw [← Except.ok.inj round_low, ← Except.ok.inj round_high, fraction, divisor, ht.lift,
        hs.lift, rate]
      have growing : 0 ≤ s.kellyFraction := hs.fraction ▸ kellyOf_nonneg p config
      have lifted : 0 ≤ liftOf s.rating := by
        apply liftOf_nonneg
        rw [hs.rating, Scalar.zero_literal]
        exact Scalar.le_clamp _ _ _
      rw [← hs.divisor] at positive
      apply Scalar.scaled_mono
      gcongr
    rw [amount_low, amount_high]
    exact min_le_min caps rounded

end

theorem ofMatches_of_distributions {games : List (SizedMatch α)} {config : Config α}
    {legs : List (MatchDistribution α)} (h : distributions games config = .ok legs) :
    ofMatches games config =
      recommend (Parlay.combine legs) (games.map (·.mode)) (.real (ratingOf legs)) config := by
  rw [ofMatches, h]
  rfl

theorem meanDivisor_pos (modes : List Mode) {config : Config α}
    (positive : 0 < config.kellyDivisor) :
    0 < meanDivisor (modes.map fun m => .text m.label) config := by
  by_cases none : modes = []
  · rw [none]
    exact positive
  · obtain ⟨low, -, below⟩ := (meanDivisor_between none config).1
    exact low.kellyDivisor_pos.trans_le below

/-- Stored matches always have a stake.  It follows from the Kelly fraction of their ticket, its
divisor lies between those of two of their modes, and more capital does not lower it. -/
theorem ofMatches_follows (records : List (StoredMatch α)) {config : Config α}
    (capital : 0 ≤ config.initialCapital) (ratio : 0 ≤ config.riskCapRatio)
    (positive : 0 < config.kellyDivisor) :
    ∃ legs s, distributions (records.map SizedMatch.ofStored) config = .ok legs ∧
      ofMatches (records.map SizedMatch.ofStored) config = .ok s ∧
      s.Follows (Parlay.combine legs) (records.map fun r => .text r.mode.label) (ratingOf legs)
        config ∧
      (records = [] → s.kellyDivisor = config.kellyDivisor) ∧
      (records ≠ [] → (∃ low ∈ records, low.mode.kellyDivisor ≤ s.kellyDivisor) ∧
        ∃ high ∈ records, s.kellyDivisor ≤ high.mode.kellyDivisor) ∧
      ∀ more, config.initialCapital ≤ more →
        ∃ t, ofMatches (records.map SizedMatch.ofStored) { config with initialCapital := more } =
          .ok t ∧ s.amount ≤ t.amount := by
  obtain ⟨legs, read⟩ : ∃ legs, distributions (records.map SizedMatch.ofStored) config = .ok legs :=
    exists_mapM_ok (fun m => m.exists_distribution config.defaultOdds) _
  have mean : 0 < meanDivisor (records.map fun r => .text r.mode.label) config := by
    have positive := meanDivisor_pos (records.map (·.mode)) positive
    rwa [List.map_map] at positive
  obtain ⟨s, made, follows⟩ := exists_recommend (Parlay.combine legs)
    (records.map fun r => .text r.mode.label) (ratingOf legs) capital ratio mean
  have modes : (records.map SizedMatch.ofStored).map (·.mode) =
      records.map fun r => .text r.mode.label := by
    rw [List.map_map]
    rfl
  refine ⟨legs, s, read, ?_, follows, ?_, ?_, ?_⟩
  · rw [ofMatches_of_distributions read, modes, made]
  · rintro rfl
    exact follows.divisor
  · intro some_match
    have some_mode : records.map (·.mode) ≠ [] := by simpa using some_match
    obtain ⟨⟨low, hl, below⟩, high, hh, above⟩ := meanDivisor_between some_mode config
    obtain ⟨r, hr, rfl⟩ := List.mem_map.mp hl
    obtain ⟨r', hr', rfl⟩ := List.mem_map.mp hh
    rw [List.map_map] at below above
    rw [follows.divisor]
    exact ⟨⟨r, hr, below⟩, r', hr', above⟩
  · intro more raised
    let richer : Config α := { config with initialCapital := more }
    have capital' : 0 ≤ richer.initialCapital := capital.trans raised
    have reread : distributions (records.map SizedMatch.ofStored) richer = .ok legs := read
    obtain ⟨t, made', follows'⟩ := exists_recommend (Parlay.combine legs)
      (records.map fun r => .text r.mode.label) (ratingOf legs) capital' ratio mean
    refine ⟨t, ?_, follows.amount_le follows' raised ratio mean⟩
    rw [ofMatches_of_distributions reread, modes, made']

noncomputable def bareMatch (mode : Mode) : StoredMatch ℝ where
  id := none
  homeTeam := []
  awayTeam := []
  entries := []
  odds := some 8
  conf := 90
  mode := mode
  tysHome := .medium
  tysAway := .medium
  fid := 0.4
  fseHome := 50
  fseAway := 50
  note := []

theorem ofMatches_follows_bareMatches :
    let records := [bareMatch .insured, bareMatch .gamble]
    let config : Config ℝ := Config.standard
    0 ≤ config.initialCapital ∧ 0 ≤ config.riskCapRatio ∧ 0 < config.kellyDivisor ∧
      ∃ s, ofMatches (records.map SizedMatch.ofStored) config = .ok s ∧
        0 ≤ s.amount ∧ s.amount ≤ s.riskCap ∧ 3 ≤ s.kellyDivisor ∧ s.kellyDivisor ≤ 6 ∧
        ∃ t, ofMatches (records.map SizedMatch.ofStored) { config with initialCapital := 1200 } =
          .ok t ∧ s.amount ≤ t.amount := by
  intro records config
  have capital : 0 ≤ config.initialCapital := by norm_num [config, Config.standard]
  have ratio : 0 ≤ config.riskCapRatio := by norm_num [config, Config.standard]
  have positive : 0 < config.kellyDivisor := by norm_num [config, Config.standard]
  have raised : config.initialCapital ≤ 1200 := by norm_num [config, Config.standard]
  obtain ⟨legs, s, -, made, follows, -, between, more⟩ :=
    ofMatches_follows records capital ratio positive
  obtain ⟨⟨low, hl, below⟩, high, hh, above⟩ := between (List.cons_ne_nil _ _)
  have three (r : StoredMatch ℝ) (hr : r ∈ records) :
      3 ≤ (r.mode.kellyDivisor : ℝ) ∧ (r.mode.kellyDivisor : ℝ) ≤ 6 := by
    rcases List.mem_pair.mp hr with rfl | rfl <;> norm_num [bareMatch, Mode.kellyDivisor]
  exact ⟨capital, ratio, positive, s, made, follows.nonneg, follows.le_riskCap,
    (three low hl).1.trans below, above.trans (three high hh).2, more 1200 raised⟩

end Stake

end Wager
