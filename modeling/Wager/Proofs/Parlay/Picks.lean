import Wager.Proofs.Parlay.Normalized

/-!
# Picks

While nothing is left out and states are merged only when they agree on what is asked of their
payouts, the slots answer like the full cross product of the legs: over all ways to pick one state
from each leg, the mass is the product of the picked probabilities and the payout the product of the
picked payouts.
-/

namespace Wager.Parlay

variable {ι α : Type} [ExactScalar α]

def pickMass (pick : List (State ι α)) : α := (pick.map (·.probability)).prod

def pickGross (pick : List (State ι α)) : α := (pick.map (·.gross)).prod

/-- A figure of the payout, in the mean over all picks, with payout `x` before the first leg. -/
def crossed (legs : List (List (State ι α))) (f : α → α) (x : α) : α :=
  (legs.sections.map fun pick => pickMass pick * f (x * pickGross pick)).sum

theorem crossed_nil (f : α → α) (x : α) : crossed ([] : List (List (State ι α))) f x = f x := by
  simp [crossed, pickMass, pickGross]

private theorem sum_flatMap {β γ : Type} (xs : List β) (g : β → List γ) (f : γ → α) :
    ((xs.flatMap g).map f).sum = (xs.map fun x => ((g x).map f).sum).sum := by
  rw [List.map_flatMap, List.flatMap_def, List.sum_flatten, List.map_map]
  rfl

theorem crossed_cons (leg : List (State ι α)) (legs : List (List (State ι α))) (f : α → α) (x : α) :
    crossed (leg :: legs) f x = spread leg (crossed legs f) x := by
  have inner (pick : List (State ι α)) : ((leg.map fun s => s :: pick).map fun p =>
      pickMass p * f (x * pickGross p)).sum =
      (leg.map fun s =>
        s.probability * (pickMass pick * f (x * s.gross * pickGross pick))).sum := by
    rw [List.map_map]
    simp [Function.comp_def, pickMass, pickGross, mul_assoc]
  calc crossed (leg :: legs) f x
      = (legs.sections.map fun pick => ((leg.map fun s => s :: pick).map fun p =>
          pickMass p * f (x * pickGross p)).sum).sum := sum_flatMap _ _ _
    _ = (legs.sections.map fun pick => (leg.map fun s =>
          s.probability * (pickMass pick * f (x * s.gross * pickGross pick))).sum).sum := by
        simp only [inner]
    _ = (leg.map fun s => (legs.sections.map fun pick =>
          s.probability * (pickMass pick * f (x * s.gross * pickGross pick))).sum).sum :=
        sum_map_sum_comm _ _ _
    _ = spread leg (crossed legs f) x := by
        simp only [List.sum_map_mul_left, spread, crossed]

theorem sum_sections_prod (legs : List (List (State ι α))) (f : State ι α → α) :
    (legs.sections.map fun pick => (pick.map f).prod).sum =
      (legs.map fun leg => (leg.map f).sum).prod := by
  induction legs with
  | nil => simp
  | cons leg legs ih =>
    rw [List.sections, sum_flatMap, List.map_cons, List.prod_cons, ← ih, ← List.sum_map_mul_left]
    congr 1
    apply List.map_congr_left
    intro pick _
    rw [List.map_map, ← List.sum_map_mul_right]
    simp [Function.comp_def]

/-- Whether no joint state is left out from some slots on. -/
def NothingPruned (stages : List (List (Candidate α))) : Prop :=
  ∀ stage ∈ stages, ∀ c ∈ stage, Odds.negligible < c.probability

/-- Whether joint states that are merged at some stage have related payouts. -/
def MergedBy (related : α → α → Prop) (stages : List (List (Candidate α))) : Prop :=
  ∀ stage ∈ stages, ∀ a ∈ stage, ∀ b ∈ stage,
    mergeKey a.gross = mergeKey b.gross → related a.gross b.gross

instance (stages : List (List (Candidate α))) : Decidable (NothingPruned stages) :=
  inferInstanceAs (Decidable (∀ stage ∈ stages, ∀ c ∈ stage, Odds.negligible < c.probability))

instance (related : α → α → Prop) [DecidableRel related] (stages : List (List (Candidate α))) :
    Decidable (MergedBy related stages) :=
  inferInstanceAs (Decidable (∀ stage ∈ stages, ∀ a ∈ stage, ∀ b ∈ stage,
    mergeKey a.gross = mergeKey b.gross → related a.gross b.gross))

section

variable {related : α → α → Prop} {f : α → α}

/-- Absorbing candidates adds their parts of a figure, when slots and candidates that are merged
agree on the figure. -/
theorem weighted_foldl_absorb {slots : List (Slot α)} {cs : List (Candidate α)}
    (hk : (slots.map (·.key)).Nodup) (hs : ∀ s ∈ slots, ∀ c ∈ cs, s.key = mergeKey c.gross →
      f s.gross = f c.gross)
    (hc : ∀ a ∈ cs, ∀ b ∈ cs, mergeKey a.gross = mergeKey b.gross → f a.gross = f b.gross)
    (large : ∀ c ∈ cs, Odds.negligible < c.probability) :
    weighted f (cs.foldl absorb slots) =
      weighted f slots + (cs.map fun c => c.probability * f c.gross).sum := by
  induction cs generalizing slots with
  | nil => simp
  | cons c cs ih =>
    have kept : c.isPruned = false := by simpa [Candidate.isPruned] using large c (by simp)
    have step : weighted f (absorb slots c) = weighted f slots + c.probability * f c.gross := by
      simp only [absorb, kept, Bool.false_eq_true, if_false]
      exact weighted_addMass hk c.probability (fun s hm => hs s hm c (by simp))
    have rest : ∀ s ∈ absorb slots c, ∀ d ∈ cs, s.key = mergeKey d.gross →
        f s.gross = f d.gross := by
      intro s hm d hd he
      rcases mem_absorb hm with hm | ⟨_, ⟨t, ht, rfl⟩ | rfl⟩
      · exact hs s hm d (by simp [hd]) he
      · exact hs t ht d (by simp [hd]) he
      · exact hc c (by simp) d (by simp [hd]) he
    rw [List.foldl_cons, ih (absorb_keys_nodup c hk) rest
      (fun a ha b hb => hc a (by simp [ha]) b (by simp [hb]))
      (fun d hd => large d (by simp [hd])), step, List.map_cons, List.sum_cons, add_assoc]

theorem weighted_extend {slots : List (Slot α)} {leg : List (State ι α)}
    (hc : ∀ a ∈ candidates slots leg, ∀ b ∈ candidates slots leg,
      mergeKey a.gross = mergeKey b.gross → f a.gross = f b.gross)
    (large : ∀ c ∈ candidates slots leg, Odds.negligible < c.probability) :
    weighted f (extend slots leg) = weighted (spread leg f) slots := by
  rw [extend_eq, weighted_foldl_absorb (by simp) (by simp) hc large, ← sum_candidates]
  simp [weighted]

omit [ExactScalar α] in
private theorem exists_leg_of_mem {legs : List (List (State ι α))} {pick : List (State ι α)}
    (h : List.Forall₂ (· ∈ ·) pick legs) {s : State ι α} (hs : s ∈ pick) :
    ∃ leg ∈ legs, s ∈ leg := by
  induction h with
  | nil => simp at hs
  | @cons t leg pick legs ht _ ih =>
    rcases List.mem_cons.mp hs with rfl | hs
    · exact ⟨leg, List.mem_cons_self, ht⟩
    · obtain ⟨l, hl, hm⟩ := ih hs
      exact ⟨l, List.mem_cons_of_mem leg hl, hm⟩

theorem picked_gross_nonneg {legs : List (List (State ι α))} (hl : ∀ leg ∈ legs, Proper leg)
    {pick : List (State ι α)} (hp : pick ∈ legs.sections) : ∀ s ∈ pick, 0 ≤ s.gross := by
  intro s hs
  obtain ⟨leg, hleg, hm⟩ := exists_leg_of_mem (List.mem_sections.mp hp) hs
  exact (hl leg hleg).gross_nonneg s hm

theorem crossed_congr {legs : List (List (State ι α))}
    (hmul : ∀ x y z, 0 ≤ z → related x y → related (x * z) (y * z))
    (hf : ∀ x y, related x y → f x = f y) (hl : ∀ leg ∈ legs, Proper leg) {x y : α}
    (h : related x y) : crossed legs f x = crossed legs f y := by
  unfold crossed
  congr 1
  apply List.map_congr_left
  intro pick hp
  have nonneg : 0 ≤ pickGross pick := by
    apply List.prod_nonneg
    intro g hg
    obtain ⟨s, hs, rfl⟩ := List.mem_map.mp hg
    exact picked_gross_nonneg hl hp s hs
  rw [hf _ _ (hmul x y _ nonneg h)]

/-- The run answers a figure like the cross product of all legs. -/
theorem weighted_foldl_extend {slots : List (Slot α)} {legs : List (List (State ι α))}
    (hmul : ∀ x y z, 0 ≤ z → related x y → related (x * z) (y * z))
    (hf : ∀ x y, related x y → f x = f y) (hl : ∀ leg ∈ legs, Proper leg)
    (kept : NothingPruned (stagesFrom slots legs)) (hm : MergedBy related (stagesFrom slots legs)) :
    weighted f (legs.foldl extend slots) = weighted (crossed legs f) slots := by
  induction legs generalizing slots with
  | nil => simp [weighted, crossed_nil]
  | cons leg legs ih =>
    have hl' : ∀ l ∈ legs, Proper l := fun l hmem => hl l (List.mem_cons_of_mem leg hmem)
    have first : weighted (crossed legs f) (extend slots leg) =
        weighted (spread leg (crossed legs f)) slots := by
      apply weighted_extend
      · intro a ha b hb he
        exact crossed_congr hmul hf hl' (hm _ List.mem_cons_self a ha b hb he)
      · exact kept _ List.mem_cons_self
    rw [List.foldl_cons, ih hl' (fun st hst => kept st (List.mem_cons_of_mem _ hst))
      (fun st hst => hm st (List.mem_cons_of_mem _ hst)), first]
    simp only [weighted, crossed_cons]

theorem weighted_joint {legs : List (List (State ι α))}
    (hmul : ∀ x y z, 0 ≤ z → related x y → related (x * z) (y * z))
    (hf : ∀ x y, related x y → f x = f y) (hl : ∀ leg ∈ legs, Proper leg)
    (kept : NothingPruned (stages legs)) (hm : MergedBy related (stages legs)) :
    weighted f (joint legs) =
      (legs.sections.map fun pick => pickMass pick * f (pickGross pick)).sum := by
  rw [joint_eq, weighted_foldl_extend hmul hf hl kept hm]
  simp [weighted, start, crossed]

end

end Wager.Parlay
