import Wager.Proofs.Parlay.Stage

/-!
# The mass of a parlay

Totals over the slots, weighted by any figure of the payout, follow the stages: absorbing a
candidate adds its part.  So the only mass that is lost is that of the candidates left out.
-/

namespace Wager.Parlay

variable {ι α : Type} [ExactScalar α]

/-- The mass of the slots, each weighted by a figure of its payout. -/
def weighted (f : α → α) (slots : List (Slot α)) : α :=
  (slots.map fun s => s.probability * f s.gross).sum

def mass (slots : List (Slot α)) : α := (slots.map (·.probability)).sum

theorem mass_eq_weighted (slots : List (Slot α)) : mass slots = weighted (fun _ => 1) slots := by
  simp [mass, weighted]

/-- What a leg makes of a figure: its mean over the states of the leg. -/
def spread (leg : List (State ι α)) (f : α → α) (x : α) : α :=
  (leg.map fun s => s.probability * f (x * s.gross)).sum

theorem sum_candidates (f : α → α) (slots : List (Slot α)) (leg : List (State ι α)) :
    ((candidates slots leg).map fun c => c.probability * f c.gross).sum =
      weighted (spread leg f) slots := by
  induction slots with
  | nil => rfl
  | cons base slots ih =>
    have first : ((leg.map fun s => (⟨base.probability * s.probability, base.gross * s.gross⟩ :
        Candidate α)).map fun c => c.probability * f c.gross).sum =
        base.probability * spread leg f base.gross := by
      rw [spread, ← List.sum_map_mul_left, List.map_map]
      simp [Function.comp_def, mul_assoc]
    have rest : ((candidates slots leg).map fun c => c.probability * f c.gross).sum =
        weighted (spread leg f) slots := ih
    simp only [candidates, List.flatMap_cons, List.map_append, List.sum_append, weighted,
      List.map_cons, List.sum_cons] at rest ⊢
    rw [rest]
    exact congrArg (· + _) first

/-- Adding mass to the slot of a payout adds its part to every figure that the slot's payout shares
with it. -/
theorem weighted_addMass {f : α → α} {slots : List (Slot α)} {gross : α}
    (hk : (slots.map (·.key)).Nodup) (probability : α)
    (hf : ∀ s ∈ slots, s.key = mergeKey gross → f s.gross = f gross) :
    weighted f (addMass slots gross probability) = weighted f slots + probability * f gross := by
  rw [addMass_eq]
  apply Keyed.sum_update hk
  · intro s hs he
    rw [add_mul, hf s hs he]
  · rfl

theorem mass_absorb {slots : List (Slot α)} (hk : (slots.map (·.key)).Nodup) (c : Candidate α) :
    mass (absorb slots c) = mass slots + if c.isPruned then 0 else c.probability := by
  unfold absorb
  split
  next => rw [add_zero]
  next =>
    rw [mass_eq_weighted, mass_eq_weighted, weighted_addMass hk c.probability (fun _ _ _ => rfl),
      mul_one]

/-- Absorbing candidates loses at most a negligible mass for each one left out, and gains none. -/
theorem mass_foldl_absorb {slots : List (Slot α)} (hk : (slots.map (·.key)).Nodup)
    {cs : List (Candidate α)} (hc : ∀ c ∈ cs, 0 ≤ c.probability) :
    mass (cs.foldl absorb slots) ≤ mass slots + (cs.map (·.probability)).sum ∧
      mass slots + (cs.map (·.probability)).sum ≤
        mass (cs.foldl absorb slots) + Odds.negligible * (cs.countP Candidate.isPruned : Nat) := by
  induction cs generalizing slots with
  | nil => simp
  | cons c cs ih =>
    have step := mass_absorb hk c
    obtain ⟨upper, lower⟩ :=
      ih (absorb_keys_nodup c hk) (fun d hd => hc d (List.mem_cons_of_mem c hd))
    rw [step] at upper lower
    have nonneg := hc c (by simp)
    simp only [List.foldl_cons, List.map_cons, List.sum_cons, List.countP_cons]
    by_cases hp : c.isPruned = true
    · have small := (isPruned_iff c).mp hp
      simp only [hp, if_true, add_zero] at upper lower ⊢
      push_cast
      constructor <;> linarith
    · simp only [hp, Bool.false_eq_true, if_false, add_zero] at upper lower ⊢
      constructor <;> linarith

def prunedFrom (slots : List (Slot α)) (legs : List (List (State ι α))) : Nat :=
  ((stagesFrom slots legs).map (·.countP Candidate.isPruned)).sum

theorem mass_extend {slots : List (Slot α)} {leg : List (State ι α)} (hs : Nonneg slots)
    (hl : Proper leg) : mass (extend slots leg) ≤ mass slots ∧
      mass slots ≤ mass (extend slots leg) +
        Odds.negligible * ((candidates slots leg).countP Candidate.isPruned : Nat) := by
  have whole : ((candidates slots leg).map (·.probability)).sum = mass slots := by
    have total := sum_candidates (fun _ => 1) slots leg
    simp only [mul_one, weighted, spread, hl.mass_eq_one] at total
    exact total
  have bounds := mass_foldl_absorb (merged_nil (α := α)).keys_nodup
    (candidates_probability_nonneg hs hl)
  rw [← extend_eq, whole] at bounds
  simpa [mass] using bounds

theorem mass_foldl_extend {slots : List (Slot α)} (hs : Nonneg slots)
    {legs : List (List (State ι α))} (hl : ∀ leg ∈ legs, Proper leg) :
    mass (legs.foldl extend slots) ≤ mass slots ∧
      mass slots ≤
        mass (legs.foldl extend slots) + Odds.negligible * (prunedFrom slots legs : Nat) := by
  induction legs generalizing slots with
  | nil => simp [prunedFrom, stagesFrom]
  | cons leg legs ih =>
    have proper := hl leg (by simp)
    obtain ⟨upper, lower⟩ := mass_extend hs proper
    obtain ⟨upper', lower'⟩ := ih (merged_extend hs proper).nonneg
      (fun l hm => hl l (List.mem_cons_of_mem leg hm))
    refine ⟨upper'.trans upper, ?_⟩
    simp only [prunedFrom, stagesFrom, List.map_cons, List.sum_cons, Nat.cast_add, mul_add,
      List.foldl_cons] at lower' ⊢
    linarith

theorem mass_start : mass (start : List (Slot α)) = 1 := by
  simp [mass, start]

end Wager.Parlay
