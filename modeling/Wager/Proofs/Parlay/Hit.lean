import Wager.Proofs.Parlay.CrossProduct

/-!
# Hitting on a parlay

A ticket calls a joint state a miss when it pays nothing.  A match calls a state a miss when none of
its entries hits; a hit pays nothing, too, when no part of the stake stands on the entries that hit.
So a ticket hits when every match pays.
-/

namespace Wager.Parlay

variable {ι α : Type} [ExactScalar α]

def payingMass (leg : List (State ι α)) : α :=
  ((leg.filter fun s => 0 < s.gross).map (·.probability)).sum

theorem mergeKey_eq_zero_iff {x : α} (h : 0 ≤ x) :
    mergeKey x = mergeKey (0 : α) ↔ x ≤ 5e-9 := by
  have half : (5e-9 : α) = 1 / 2 / 10 ^ 8 := by
    rw [ExactScalar.ofScientific_eq]
    norm_num
  rw [mergeKey, mergeKey, mergePlaces, Scalar.fixed_eq_fixed_zero_iff 8 h, half]
  exact (le_div_iff₀ (by positivity)).symm

/-- Whether no joint state pays so little that the text of its payout is that of nothing. -/
def NoneVanishes (stages : List (List (Candidate α))) : Prop :=
  ∀ stage ∈ stages, ∀ c ∈ stage, 0 < c.gross → 5e-9 < c.gross

instance (stages : List (List (Candidate α))) : Decidable (NoneVanishes stages) :=
  inferInstanceAs (Decidable (∀ stage ∈ stages, ∀ c ∈ stage,
    0 < c.gross → 5e-9 < c.gross))

def PayAlike (x y : α) : Prop := 0 < x ↔ 0 < y

theorem PayAlike.mul {x y : α} (h : PayAlike x y) {z : α} (hz : 0 ≤ z) :
    PayAlike (x * z) (y * z) := by
  rcases hz.eq_or_lt with rfl | hz
  · simp [PayAlike]
  · unfold PayAlike
    rw [mul_pos_iff_of_pos_right hz, mul_pos_iff_of_pos_right hz]
    exact h

def pays : α → α := indicator (0 < ·)

theorem PayAlike.pays_eq {x y : α} (h : PayAlike x y) : pays x = pays y := by
  have same : decide (0 < x) = decide (0 < y) := decide_eq_decide.mpr h
  simp only [pays, indicator, same]

theorem pays_one : pays (1 : α) = 1 := by
  simp [pays, indicator]

theorem pays_mul {x y : α} (hx : 0 ≤ x) (hy : 0 ≤ y) : pays (x * y) = pays x * pays y := by
  rcases hx.eq_or_lt with rfl | hx
  · simp [pays, indicator]
  rcases hy.eq_or_lt with rfl | hy
  · simp [pays, indicator]
  · simp [pays, indicator, hx, hy]

theorem pays_pickGross {pick : List (State ι α)} (h : ∀ s ∈ pick, 0 ≤ s.gross) :
    pays (pickGross pick) = (pick.map fun s => pays s.gross).prod := by
  induction pick with
  | nil => simp [pickGross, pays_one]
  | cons s pick ih =>
    have tail : ∀ t ∈ pick, 0 ≤ t.gross := fun t ht => h t (List.mem_cons_of_mem s ht)
    have rest : 0 ≤ pickGross pick := List.prod_nonneg (by simpa using tail)
    have split : pickGross (s :: pick) = s.gross * pickGross pick := by simp [pickGross]
    rw [split, pays_mul (h s List.mem_cons_self) rest, ih tail, List.map_cons, List.prod_cons]

theorem payingMass_eq (leg : List (State ι α)) :
    payingMass leg = (leg.map fun s => s.probability * pays s.gross).sum :=
  sum_map_filter _ _ _

section

variable {games : List (MatchDistribution α)}

theorem mergedBy_payAlike (built : ∀ d ∈ games, d.Built) (visible : NoneVanishes (stagesOf games)) :
    MergedBy PayAlike (stagesOf games) := by
  have nonneg := stagesFrom_gross_nonneg nonneg_start (proper_legs built)
  have half {stage : List (Candidate α)} (hs : stage ∈ stagesOf games) {a b : Candidate α}
      (ha : a ∈ stage) (hb : b ∈ stage) (he : mergeKey a.gross = mergeKey b.gross)
      (hpos : 0 < a.gross) : 0 < b.gross := by
    by_contra hb'
    have nothing : b.gross = 0 := le_antisymm (not_lt.mp hb') (nonneg stage hs b hb)
    rw [nothing, mergeKey_eq_zero_iff hpos.le] at he
    exact (visible stage hs a ha hpos).not_ge he
  intro stage hs a ha b hb he
  exact ⟨half hs ha hb he, half hs hb ha he.symm⟩

theorem hitProbability_eq_payingMass (hne : games ≠ []) (built : ∀ d ∈ games, d.Built)
    (kept : NothingPruned (stagesOf games)) :
    (combine games).statistics.hitProbability = payingMass (combine games).states := by
  rw [statistics, Statistics.hitProbability_eq, payingMass]
  congr 2
  apply List.filter_congr
  intro s hs
  rw [combine_eq_slots hne built kept] at hs
  obtain ⟨t, _, rfl⟩ := List.mem_map.mp hs
  rw [Bool.eq_iff_iff, Bool.not_eq_true', ← Bool.not_eq_true, stateOf_isMiss, stateOf_gross,
    not_le, decide_eq_true_iff]

theorem payingMass_combine (hne : games ≠ []) (built : ∀ d ∈ games, d.Built)
    (kept : NothingPruned (stagesOf games)) (visible : NoneVanishes (stagesOf games)) :
    payingMass (combine games).states = (games.map fun d => payingMass d.states).prod := by
  have picked : ∀ pick ∈ (games.map (·.states)).sections, pickMass pick * pays (pickGross pick) =
      (pick.map fun s => s.probability * pays s.gross).prod := by
    intro pick hp
    rw [pays_pickGross (picked_gross_nonneg (proper_legs built) hp)]
    exact List.prod_map_mul.symm
  calc payingMass (combine games).states
      = ((combine games).states.map fun s => s.probability * pays s.gross).sum := payingMass_eq _
    _ = ((games.map (·.states)).sections.map fun pick =>
          pickMass pick * pays (pickGross pick)).sum :=
        mean_combine hne built kept (mergedBy_payAlike built visible)
          (fun _ _ _ hz h => h.mul hz) (fun _ _ h => h.pays_eq)
    _ = ((games.map (·.states)).sections.map fun pick =>
          (pick.map fun s => s.probability * pays s.gross).prod).sum := by
        rw [List.map_congr_left picked]
    _ = ((games.map (·.states)).map fun leg =>
          (leg.map fun s => s.probability * pays s.gross).sum).prod := sum_sections_prod _ _
    _ = (games.map fun d => payingMass d.states).prod := by
        rw [List.map_map]
        simp only [Function.comp_def, payingMass_eq]

end

def HitsPay (d : MatchDistribution α) : Prop := ∀ s ∈ d.states, s.isMiss = false → 0 < s.gross

instance (d : MatchDistribution α) : Decidable (HitsPay d) :=
  inferInstanceAs (Decidable (∀ s ∈ d.states, s.isMiss = false → 0 < s.gross))

theorem payingMass_of_hitsPay {d : MatchDistribution α} (h : d.Lawful) (hp : HitsPay d) :
    payingMass d.states = d.statistics.hitProbability := by
  obtain ⟨hits, miss, hstates, _, hmiss, hgross, hhits⟩ := h.miss_last
  rw [MatchDistribution.statistics, Statistics.hitProbability_eq, payingMass]
  congr 2
  apply List.filter_congr
  intro s hs
  cases hm : s.isMiss with
  | false => simpa using hp s hs hm
  | true =>
    have last : s = miss := by
      rw [hstates] at hs
      rcases List.mem_append.mp hs with hs | hs
      · exact absurd (hhits s hs).2 (by simp [hm])
      · exact List.mem_singleton.mp hs
    simp [last, hgross]

/-- While nothing is left out and no payout vanishes, a ticket hits when all its matches pay.  If
the hits of the matches all pay, its hit probability is the product of theirs. -/
theorem hitProbability_combine (games : List (MatchDistribution α)) (hne : games ≠ [])
    (built : ∀ d ∈ games, d.Built) (kept : NothingPruned (stagesOf games))
    (visible : NoneVanishes (stagesOf games)) :
    (combine games).statistics.hitProbability = (games.map fun d => payingMass d.states).prod ∧
      ((∀ d ∈ games, HitsPay d) → (combine games).statistics.hitProbability =
        (games.map (·.statistics.hitProbability)).prod) := by
  have paying := (hitProbability_eq_payingMass hne built kept).trans
    (payingMass_combine hne built kept visible)
  refine ⟨paying, fun pay => ?_⟩
  rw [paying]
  congr 1
  apply List.map_congr_left
  intro d hd
  exact payingMass_of_hitsPay (built d hd).lawful (pay d hd)

theorem hitProbability_combine_twoMatches :
    twoMatches ≠ [] ∧ (∀ d ∈ twoMatches, d.Built) ∧ NothingPruned (stagesOf twoMatches) ∧
      NoneVanishes (stagesOf twoMatches) ∧ (∀ d ∈ twoMatches, HitsPay d) ∧
      (combine twoMatches).statistics.hitProbability =
        (twoMatches.map (·.statistics.hitProbability)).prod := by
  have nonempty : twoMatches ≠ [] := List.cons_ne_nil _ _
  have joined : NothingPruned (stagesOf twoMatches) ∧ NoneVanishes (stagesOf twoMatches) ∧
      ∀ d ∈ twoMatches, HitsPay d := by
    decide +kernel
  obtain ⟨kept, visible, pay⟩ := joined
  have hit := hitProbability_combine twoMatches nonempty built_twoMatches kept visible
  exact ⟨nonempty, built_twoMatches, kept, visible, pay, hit.2 pay⟩

def unbacked : MatchDistribution ℚ :=
  .ofEntries [.bet "主胜" 2, .bet "平" 3] (.real (1 / 2)) .null (some [.int 1, .int 0])

/-- A match with two entries and all but a billionth of the stake on the second. -/
def hardlyBacked : MatchDistribution ℚ :=
  .ofEntries [.bet "2-1" 2, .bet "1-0" 4] (.real (1 / 2)) .null
    (some [.real (1 / 10 ^ 9), .int 1])

/-- Neither condition can be spared, nor can the matches: a hit that pays nothing becomes a miss, a
miss merged with a payout that vanishes becomes a hit, and a ticket without matches never hits. -/
theorem hitProbability_combine_ne :
    (unbacked.Built ∧ NothingPruned (stagesOf [unbacked]) ∧
      unbacked.statistics.hitProbability = 1 / 2 ∧
      (combine [unbacked]).statistics.hitProbability = 3 / 10) ∧
    (hardlyBacked.Built ∧ NothingPruned (stagesOf [hardlyBacked]) ∧
      hardlyBacked.statistics.hitProbability = 1 / 2 ∧
      (combine [hardlyBacked]).statistics.hitProbability = 1) ∧
    (combine ([] : List (MatchDistribution ℚ))).statistics.hitProbability = 0 := by
  refine ⟨⟨MatchDistribution.built_ofEntries _ _ _ _, ?_⟩,
    ⟨MatchDistribution.built_ofEntries _ _ _ _, ?_⟩, ?_⟩
  all_goals decide +kernel

end Wager.Parlay
