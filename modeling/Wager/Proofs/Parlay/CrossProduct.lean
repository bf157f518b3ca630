import Wager.Proofs.Parlay.Picks

/-!
# A parlay as a cross product

While no joint state is left out and only equal payouts are merged, a ticket is the cross product of
its matches.  Their order does not matter among the orders in which this is so, but it may decide
what is left out and what is merged.
-/

namespace Wager.Parlay

variable {ι α : Type} [ExactScalar α]

theorem spread_comm (leg leg' : List (State ι α)) (f : α → α) (x : α) :
    spread leg (spread leg' f) x = spread leg' (spread leg f) x := by
  simp only [spread, ← List.sum_map_mul_left]
  rw [sum_map_sum_comm]
  simp only [mul_left_comm, mul_right_comm x]

theorem crossed_perm {legs legs' : List (List (State ι α))} (h : legs.Perm legs') (f : α → α) :
    crossed legs f = crossed legs' f := by
  induction h with
  | nil => rfl
  | cons leg _ ih =>
    funext x
    rw [crossed_cons, crossed_cons, ih]
  | swap leg leg' legs =>
    funext x
    have two (l l' : List (State ι α)) :
        crossed (l :: l' :: legs) f x = spread l (spread l' (crossed legs f)) x := by
      rw [crossed_cons]
      congr 1
      funext y
      exact crossed_cons l' legs f y
    rw [two, two, spread_comm]
  | trans _ _ ih ih' => exact ih.trans ih'

def indicator (kind : α → Bool) (x : α) : α := if kind x then 1 else 0

/-- No two slots have the same payout, so the mass at a slot's payout is the slot's. -/
theorem weighted_indicator {slots : List (Slot α)} (h : Merged slots) {s : Slot α}
    (hs : s ∈ slots) : weighted (indicator (· = s.gross)) slots = s.probability := by
  obtain ⟨before, after, rfl⟩ := List.append_of_mem hs
  have distinct := h.keys_nodup
  have other : ∀ t ∈ before ++ after, t.probability * indicator (· = s.gross) t.gross = 0 := by
    intro t ht
    have hmem : t ∈ before ++ s :: after := by
      rcases List.mem_append.mp ht with ht | ht <;> simp [ht]
    have hkey : t.key ≠ s.key := by
      have middle : (s :: (before ++ after)).map (·.key) |>.Nodup :=
        ((List.perm_middle.map _).nodup_iff).mp distinct
      intro he
      exact (List.nodup_cons.mp middle).1 (List.mem_map.mpr ⟨t, ht, he⟩)
    have hgross : t.gross ≠ s.gross := by
      intro he
      exact hkey (by rw [h.key_eq t hmem, h.key_eq s hs, he])
    simp [indicator, hgross]
  have zero (part : List (Slot α)) (hp : ∀ t ∈ part, t ∈ before ++ after) :
      (part.map fun t => t.probability * indicator (· = s.gross) t.gross).sum = 0 := by
    apply List.sum_eq_zero
    intro x hx
    obtain ⟨t, ht, rfl⟩ := List.mem_map.mp hx
    exact other t (hp t ht)
  rw [weighted, List.map_append, List.sum_append, List.map_cons, List.sum_cons,
    zero before (fun t ht => by simp [ht]), zero after (fun t ht => by simp [ht])]
  simp [indicator]

theorem exists_slot_of_weighted {slots : List (Slot α)} {x : α}
    (h : weighted (indicator (· = x)) slots ≠ 0) : ∃ s ∈ slots, s.gross = x := by
  by_contra hnone
  apply h
  apply List.sum_eq_zero
  intro y hy
  obtain ⟨s, hs, rfl⟩ := List.mem_map.mp hy
  have hne : s.gross ≠ x := fun he => hnone ⟨s, hs, he⟩
  simp [indicator, hne]

theorem perm_of_weighted {slots slots' : List (Slot α)} (h : Merged slots) (h' : Merged slots')
    (he : ∀ x, weighted (indicator (· = x)) slots = weighted (indicator (· = x)) slots') :
    slots.Perm slots' := by
  have sub {u v : List (Slot α)} (hu : Merged u) (hv : Merged v)
      (huv : ∀ x, weighted (indicator (· = x)) u = weighted (indicator (· = x)) v) :
      ∀ s ∈ u, s ∈ v := by
    intro s hs
    have there := weighted_indicator hu hs
    have positive := Odds.negligible_pos.trans (hu.large s hs)
    rw [huv] at there
    obtain ⟨t, ht, hg⟩ := exists_slot_of_weighted (there.trans_ne positive.ne')
    have mass := weighted_indicator hv ht
    rw [hg, there] at mass
    have key : s.key = t.key := by rw [hu.key_eq s hs, hv.key_eq t ht, hg]
    have same : s = t := by
      cases s
      cases t
      simp_all
    exact same ▸ ht
  rw [List.perm_ext_iff_of_nodup (List.Nodup.of_map _ h.keys_nodup)
    (List.Nodup.of_map _ h'.keys_nodup)]
  exact fun s => ⟨sub h h' he s, sub h' h (fun x => (he x).symm) s⟩

section

variable {games : List (MatchDistribution α)}

theorem mass_slotsOf_eq_one (built : ∀ d ∈ games, d.Built) (kept : NothingPruned (stagesOf games)) :
    mass (slotsOf games) = 1 := by
  have none : pruned games = 0 := by
    apply List.sum_eq_zero
    intro n hn
    obtain ⟨stage, hs, rfl⟩ := List.mem_map.mp hn
    rw [List.countP_eq_zero]
    intro c hc
    simpa [Candidate.isPruned] using kept stage hs c hc
  have bounds := mass_slotsOf built
  rw [none, Nat.cast_zero, mul_zero, add_zero] at bounds
  exact le_antisymm bounds.1 bounds.2

theorem combine_eq_slots (hne : games ≠ []) (built : ∀ d ∈ games, d.Built)
    (kept : NothingPruned (stagesOf games)) : combine games =
      ⟨(slotsOf games).map fun s => stateOf s.gross s.probability, games.length⟩ := by
  have one := mass_slotsOf_eq_one built kept
  have large : Odds.negligible < mass (slotsOf games) := by
    rw [one, Odds.negligible_eq]
    norm_num
  rw [combine_eq hne built large]
  simp only [one, div_one]

theorem mean_eq_weighted (hne : games ≠ []) (built : ∀ d ∈ games, d.Built)
    (kept : NothingPruned (stagesOf games)) (f : α → α) :
    ((combine games).states.map fun s => s.probability * f s.gross).sum =
      weighted f (slotsOf games) := by
  rw [combine_eq_slots hne built kept, List.map_map]
  simp only [Function.comp_def, stateOf_probability, stateOf_gross, weighted]

/-- A figure on which merged payouts agree has the same mean over the states of such a ticket and
over the picks from its matches. -/
theorem mean_combine {related : α → α → Prop} {f : α → α} (hne : games ≠ [])
    (built : ∀ d ∈ games, d.Built) (kept : NothingPruned (stagesOf games))
    (hm : MergedBy related (stagesOf games))
    (hmul : ∀ x y z, 0 ≤ z → related x y → related (x * z) (y * z))
    (hf : ∀ x y, related x y → f x = f y) :
    ((combine games).states.map fun s => s.probability * f s.gross).sum =
      ((games.map (·.states)).sections.map fun pick => pickMass pick * f (pickGross pick)).sum :=
  (mean_eq_weighted hne built kept f).trans
    (weighted_joint hmul hf (proper_legs built) kept hm)

theorem mean_combine_of_eq (hne : games ≠ []) (built : ∀ d ∈ games, d.Built)
    (kept : NothingPruned (stagesOf games)) (hm : MergedBy (· = ·) (stagesOf games)) (f : α → α) :
    ((combine games).states.map fun s => s.probability * f s.gross).sum =
      ((games.map (·.states)).sections.map fun pick => pickMass pick * f (pickGross pick)).sum :=
  mean_combine hne built kept hm (fun _ _ z _ h => congrArg (· * z) h) (fun _ _ h => congrArg f h)

theorem probability_combine_at (hne : games ≠ []) (built : ∀ d ∈ games, d.Built)
    (kept : NothingPruned (stagesOf games)) (hm : MergedBy (· = ·) (stagesOf games)) (x : α) :
    (((combine games).states.filter fun s => s.gross = x).map (·.probability)).sum =
      (((games.map (·.states)).sections.filter fun pick => pickGross pick = x).map
        pickMass).sum := by
  rw [sum_map_filter, sum_map_filter]
  exact mean_combine_of_eq hne built kept hm (indicator (· = x))

theorem expectedGross_combine (hne : games ≠ []) (built : ∀ d ∈ games, d.Built)
    (kept : NothingPruned (stagesOf games)) (hm : MergedBy (· = ·) (stagesOf games)) :
    (combine games).statistics.expectedGross = (games.map (·.statistics.expectedGross)).prod := by
  have picked (pick : List (State MatchState α)) : pickMass pick * pickGross pick =
      (pick.map fun s => s.probability * s.gross).prod := List.prod_map_mul.symm
  rw [statistics, Statistics.expectedGross_eq]
  calc ((combine games).states.map fun s => s.probability * s.gross).sum
      = ((games.map (·.states)).sections.map fun pick => pickMass pick * pickGross pick).sum :=
        mean_combine_of_eq hne built kept hm fun x => x
    _ = ((games.map (·.states)).map fun leg =>
          (leg.map fun s => s.probability * s.gross).sum).prod := by
        simp only [picked, sum_sections_prod]
    _ = (games.map (·.statistics.expectedGross)).prod := by
        rw [List.map_map]
        simp only [Function.comp_def, MatchDistribution.statistics, Statistics.expectedGross_eq]

theorem states_combine_perm {games' : List (MatchDistribution α)} (h : games.Perm games')
    (hne : games ≠ []) (built : ∀ d ∈ games, d.Built)
    (kept : NothingPruned (stagesOf games)) (hm : MergedBy (· = ·) (stagesOf games))
    (kept' : NothingPruned (stagesOf games')) (hm' : MergedBy (· = ·) (stagesOf games')) :
    (combine games).states.Perm (combine games').states := by
  have hne' : games' ≠ [] := fun he => hne (List.perm_nil.mp (he ▸ h))
  have built' : ∀ d ∈ games', d.Built := fun d hd => built d (h.mem_iff.mpr hd)
  have picks (f : α → α) :
      ((games.map (·.states)).sections.map fun pick => pickMass pick * f (pickGross pick)).sum =
        ((games'.map (·.states)).sections.map fun pick =>
          pickMass pick * f (pickGross pick)).sum := by
    have crossing := congrFun (crossed_perm (h.map (·.states)) f) 1
    simpa only [crossed, one_mul] using crossing
  have answers (f : α → α) : weighted f (slotsOf games) = weighted f (slotsOf games') := by
    rw [← mean_eq_weighted hne built kept, ← mean_eq_weighted hne' built' kept',
      mean_combine_of_eq hne built kept hm, mean_combine_of_eq hne' built' kept' hm', picks]
  have slots : (slotsOf games).Perm (slotsOf games') :=
    perm_of_weighted (merged_slotsOf hne built) (merged_slotsOf hne' built') fun _ => answers _
  rw [combine_eq_slots hne built kept, combine_eq_slots hne' built' kept']
  exact slots.map _

end

/-- A ticket read as the cross product of its matches: the mass at a payout is the mass of all ways
to pick one state from each match with that payout, the mean payout is the product of the mean
payouts, and any other order of the matches that leaves out no joint state and merges equal payouts
only has the same states in some order. -/
structure CrossProduct (games : List (MatchDistribution α)) : Prop where
  probability_eq : ∀ x,
    (((combine games).states.filter fun s => s.gross = x).map (·.probability)).sum =
      (((games.map (·.states)).sections.filter fun pick => pickGross pick = x).map pickMass).sum
  expectedGross_eq :
    (combine games).statistics.expectedGross = (games.map (·.statistics.expectedGross)).prod
  order_free : ∀ games' : List (MatchDistribution α), games.Perm games' →
    NothingPruned (stagesOf games') → MergedBy (· = ·) (stagesOf games') →
      (combine games).states.Perm (combine games').states ∧
        (combine games).legs = (combine games').legs ∧
        (combine games).statistics = (combine games').statistics

/-- A ticket whose joint states are all kept, and merged only at equal payouts, is the cross product
of its matches. -/
theorem combine_crossProduct (games : List (MatchDistribution α)) (hne : games ≠ [])
    (built : ∀ d ∈ games, d.Built) (kept : NothingPruned (stagesOf games))
    (exact : MergedBy (· = ·) (stagesOf games)) : CrossProduct games := by
  constructor
  case probability_eq => exact probability_combine_at hne built kept exact
  case expectedGross_eq => exact expectedGross_combine hne built kept exact
  case order_free =>
    intro games' h kept' exact'
    have hne' : games' ≠ [] := fun he => hne (List.perm_nil.mp (he ▸ h))
    have built' : ∀ d ∈ games', d.Built := fun d hd => built d (h.mem_iff.mpr hd)
    have states := states_combine_perm h hne built kept exact kept' exact'
    refine ⟨states, ?_, Statistics.ofStates_perm states⟩
    rw [combine_eq_slots hne built kept, combine_eq_slots hne' built' kept']
    exact h.length_eq

/-- Two matches with more than one way to hit.  Some of their joint states pay the same. -/
def twoMatches : List (MatchDistribution ℚ) :=
  [.ofEntries [.bet "2-1" 4, .bet "1-0" 8] (.real (1 / 2)) .null none,
    .ofEntries [.bet "2-1" 4, .bet "1-0" 8, .bet "2-0" 16] (.real (3 / 5)) .null none]

theorem built_twoMatches : ∀ d ∈ twoMatches, d.Built := by
  simp [twoMatches]

theorem combine_crossProduct_twoMatches :
    twoMatches ≠ [] ∧ (∀ d ∈ twoMatches, d.Built) ∧ NothingPruned (stagesOf twoMatches) ∧
      MergedBy (· = ·) (stagesOf twoMatches) ∧ CrossProduct twoMatches ∧
      (combine twoMatches).states.Perm (combine twoMatches.reverse).states := by
  have nonempty : twoMatches ≠ [] := List.cons_ne_nil _ _
  have joined :
      (NothingPruned (stagesOf twoMatches) ∧ MergedBy (· = ·) (stagesOf twoMatches)) ∧
        NothingPruned (stagesOf twoMatches.reverse) ∧
          MergedBy (· = ·) (stagesOf twoMatches.reverse) := by
    decide +kernel
  obtain ⟨⟨kept, exact⟩, keptBack, exactBack⟩ := joined
  have cross := combine_crossProduct twoMatches nonempty built_twoMatches kept exact
  have reversed := cross.order_free twoMatches.reverse (List.reverse_perm twoMatches).symm
    keptBack exactBack
  exact ⟨nonempty, built_twoMatches, kept, exact, cross, reversed.1⟩

/-- Two matches on the same scores, one of them a long shot.  In the first match the stake is split
so that both scores pay the same. -/
def levelled : List (MatchDistribution ℚ) :=
  [.ofEntries [.bet "2-1" 2, .bet "1-0" 10000] (.real (1 / 2)) .null (some [.int 5000, .int 1]),
    .ofEntries [.bet "2-1" 2, .bet "1-0" 10000] (.real (1 / 100)) .null none]

/-- Two matches, the second with its stake split so that its scores pay almost the same. -/
def almostLevelled : List (MatchDistribution ℚ) :=
  [.ofEntries [.bet "2-1" 10] (.real (1 / 2)) .null none,
    .ofEntries [.bet "2-1" 4, .bet "1-0" 4] (.real (1 / 2)) .null
      (some [.int 1000000000, .int 1000000001])]

/-- The order of the matches decides what is left out and what is merged.  In `levelled` the hits of
the first match are one joint state before the second match comes in; backwards its long shot meets
that of the other match alone, and their joint state is too rare to be kept.  In `almostLevelled`
the payouts of the second match are ten times further apart once the first match has hit; backwards
they are merged. -/
theorem combine_reverse_ne :
    (levelled ≠ [] ∧ (∀ d ∈ levelled, d.Built) ∧
      NothingPruned (stagesOf levelled) ∧ MergedBy (· = ·) (stagesOf levelled) ∧
      ¬NothingPruned (stagesOf levelled.reverse) ∧
      (combine levelled).statistics.hitProbability = 1 / 200 ∧
      (combine levelled.reverse).statistics.hitProbability = 25010000 / 5002000199) ∧
    (almostLevelled ≠ [] ∧ (∀ d ∈ almostLevelled, d.Built) ∧
      NothingPruned (stagesOf almostLevelled) ∧ MergedBy (· = ·) (stagesOf almostLevelled) ∧
      NothingPruned (stagesOf almostLevelled.reverse) ∧
      ¬MergedBy (· = ·) (stagesOf almostLevelled.reverse) ∧
      (combine almostLevelled).statistics.expectedGross ≠
        (combine almostLevelled.reverse).statistics.expectedGross) := by
  refine ⟨⟨List.cons_ne_nil _ _, by simp [levelled], ?_⟩,
    ⟨List.cons_ne_nil _ _, by simp [almostLevelled], ?_⟩⟩
  all_goals decide +kernel

end Wager.Parlay
