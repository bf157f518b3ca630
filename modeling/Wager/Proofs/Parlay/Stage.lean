import Wager.Proofs.Distribution.Match
import Wager.Parlay

/-!
# The stages of a parlay

Every leg is one stage: each slot so far meets each state of the leg, and the joint states with mass
are absorbed into new slots.  This module names the joint states that a stage examines and says what
absorbing one of them does; the slots of every stage keep one invariant.
-/

namespace Wager.Parlay

section

variable {ι α : Type} [Scalar α]

/-- A joint state that a stage examines: a slot together with a state of the leg. -/
structure Candidate (α : Type) where
  probability : α
  gross : α

def candidates (slots : List (Slot α)) (leg : List (State ι α)) : List (Candidate α) :=
  slots.flatMap fun base => leg.map fun s =>
    ⟨base.probability * s.probability, base.gross * s.gross⟩

def Candidate.isPruned (c : Candidate α) : Bool := c.probability ≤ (Odds.negligible : α)

def absorb (slots : List (Slot α)) (c : Candidate α) : List (Slot α) :=
  if c.isPruned then slots else addMass slots c.gross c.probability

theorem extend_eq (slots : List (Slot α)) (leg : List (State ι α)) :
    extend slots leg = (candidates slots leg).foldl absorb [] := by
  simp only [extend, candidates, List.foldl_flatMap, List.foldl_map, absorb, Candidate.isPruned,
    decide_eq_true_eq]

def start : List (Slot α) := [⟨['1'], 1.0, 1.0⟩]

theorem joint_eq (legs : List (List (State ι α))) : joint legs = legs.foldl extend start := rfl

def stagesFrom (slots : List (Slot α)) : List (List (State ι α)) → List (List (Candidate α))
  | [] => []
  | leg :: legs => candidates slots leg :: stagesFrom (extend slots leg) legs

def stages (legs : List (List (State ι α))) : List (List (Candidate α)) := stagesFrom start legs

end

variable {ι α : Type} [ExactScalar α]

theorem isPruned_iff (c : Candidate α) : c.isPruned = true ↔ c.probability ≤ Odds.negligible :=
  decide_eq_true_iff

theorem addMass_eq (slots : List (Slot α)) (gross probability : α) :
    addMass slots gross probability = Keyed.update Slot.key (mergeKey gross)
      (fun s => { s with probability := s.probability + probability })
      ⟨mergeKey gross, probability, gross⟩ slots := by
  unfold addMass
  rw [Scalar.zero_literal, zero_add]
  rfl

/-- What holds of the slots after every stage: a slot stands under the text of its payout, no two
under the same one, its mass is not negligible and it takes nothing away. -/
structure Merged (slots : List (Slot α)) : Prop where
  keys_nodup : (slots.map (·.key)).Nodup
  key_eq : ∀ s ∈ slots, s.key = mergeKey s.gross
  large : ∀ s ∈ slots, Odds.negligible < s.probability
  gross_nonneg : ∀ s ∈ slots, 0 ≤ s.gross

theorem merged_nil : Merged ([] : List (Slot α)) where
  keys_nodup := List.nodup_nil
  key_eq := by simp
  large := by simp
  gross_nonneg := by simp

theorem mem_absorb {slots : List (Slot α)} {c : Candidate α} {s : Slot α}
    (hs : s ∈ absorb slots c) : s ∈ slots ∨
      (c.isPruned = false ∧
        ((∃ t ∈ slots, s = { t with probability := t.probability + c.probability }) ∨
          s = ⟨mergeKey c.gross, c.probability, c.gross⟩)) := by
  unfold absorb at hs
  split at hs
  next => exact .inl hs
  next hc =>
    rw [addMass_eq] at hs
    rcases Keyed.mem_update hs with hs | ⟨t, ht, _, rfl⟩ | rfl
    · exact .inl hs
    · exact .inr ⟨by simpa using hc, .inl ⟨t, ht, rfl⟩⟩
    · exact .inr ⟨by simpa using hc, .inr rfl⟩

theorem absorb_keys_nodup {slots : List (Slot α)} (c : Candidate α)
    (h : (slots.map (·.key)).Nodup) : ((absorb slots c).map (·.key)).Nodup := by
  unfold absorb
  split
  next => exact h
  next =>
    rw [addMass_eq]
    exact Keyed.nodup_update (fun _ => rfl) rfl h

theorem Merged.absorb {slots : List (Slot α)} (h : Merged slots) {c : Candidate α}
    (hc : 0 ≤ c.gross) : Merged (absorb slots c) where
  keys_nodup := absorb_keys_nodup c h.keys_nodup
  key_eq := by
    intro s hs
    rcases mem_absorb hs with hs | ⟨_, ⟨t, ht, rfl⟩ | rfl⟩
    · exact h.key_eq s hs
    · exact h.key_eq t ht
    · rfl
  large := by
    intro s hs
    rcases mem_absorb hs with hs | ⟨hp, ⟨t, ht, rfl⟩ | rfl⟩
    · exact h.large s hs
    · have more : Odds.negligible < c.probability := by simpa [Candidate.isPruned] using hp
      exact (h.large t ht).trans (lt_add_of_pos_right _ (Odds.negligible_pos.trans more))
    · simpa [Candidate.isPruned] using hp
  gross_nonneg := by
    intro s hs
    rcases mem_absorb hs with hs | ⟨_, ⟨t, ht, rfl⟩ | rfl⟩
    · exact h.gross_nonneg s hs
    · exact h.gross_nonneg t ht
    · exact hc

theorem Merged.foldl_absorb {slots : List (Slot α)} (h : Merged slots) {cs : List (Candidate α)}
    (hc : ∀ c ∈ cs, 0 ≤ c.gross) : Merged (cs.foldl Parlay.absorb slots) := by
  induction cs generalizing slots with
  | nil => exact h
  | cons c cs ih =>
    exact ih (h.absorb (hc c (by simp))) (fun d hd => hc d (List.mem_cons_of_mem c hd))

/-- Slots that neither have a negative mass nor take anything away. -/
structure Nonneg (slots : List (Slot α)) : Prop where
  probability : ∀ s ∈ slots, 0 ≤ s.probability
  gross : ∀ s ∈ slots, 0 ≤ s.gross

theorem Merged.nonneg {slots : List (Slot α)} (h : Merged slots) : Nonneg slots where
  probability s hs := (Odds.negligible_pos.trans (h.large s hs)).le
  gross := h.gross_nonneg

theorem nonneg_start : Nonneg (start : List (Slot α)) := by
  constructor
  all_goals
    intro s hs
    rw [List.mem_singleton.mp hs, Scalar.one_literal]
    exact zero_le_one

/-- What a leg brings: a probability distribution that takes nothing away. -/
structure Proper (leg : List (State ι α)) : Prop where
  probability_pos : ∀ s ∈ leg, 0 < s.probability
  gross_nonneg : ∀ s ∈ leg, 0 ≤ s.gross
  mass_eq_one : (leg.map (·.probability)).sum = 1

theorem proper_states {d : MatchDistribution α} (h : d.Lawful) : Proper d.states where
  probability_pos := h.probability_pos
  gross_nonneg := h.gross_nonneg
  mass_eq_one := h.mass_eq_one

theorem mem_candidates {slots : List (Slot α)} {leg : List (State ι α)} {c : Candidate α}
    (hc : c ∈ candidates slots leg) : ∃ base ∈ slots, ∃ s ∈ leg,
      c = ⟨base.probability * s.probability, base.gross * s.gross⟩ := by
  obtain ⟨base, hb, hm⟩ := List.mem_flatMap.mp hc
  obtain ⟨s, hs, rfl⟩ := List.mem_map.mp hm
  exact ⟨base, hb, s, hs, rfl⟩

theorem candidates_gross_nonneg {slots : List (Slot α)} {leg : List (State ι α)}
    (hs : Nonneg slots) (hl : Proper leg) : ∀ c ∈ candidates slots leg, 0 ≤ c.gross := by
  intro c hc
  obtain ⟨base, hb, s, hm, rfl⟩ := mem_candidates hc
  exact mul_nonneg (hs.gross base hb) (hl.gross_nonneg s hm)

theorem candidates_probability_nonneg {slots : List (Slot α)} {leg : List (State ι α)}
    (hs : Nonneg slots) (hl : Proper leg) : ∀ c ∈ candidates slots leg, 0 ≤ c.probability := by
  intro c hc
  obtain ⟨base, hb, s, hm, rfl⟩ := mem_candidates hc
  exact mul_nonneg (hs.probability base hb) (hl.probability_pos s hm).le

/-- A stage leaves merged slots, whatever slots it started from. -/
theorem merged_extend {slots : List (Slot α)} {leg : List (State ι α)} (hs : Nonneg slots)
    (hl : Proper leg) : Merged (extend slots leg) := by
  rw [extend_eq]
  exact merged_nil.foldl_absorb (candidates_gross_nonneg hs hl)

theorem stagesFrom_gross_nonneg {slots : List (Slot α)} (hs : Nonneg slots)
    {legs : List (List (State ι α))} (hl : ∀ leg ∈ legs, Proper leg) :
    ∀ stage ∈ stagesFrom slots legs, ∀ c ∈ stage, 0 ≤ c.gross := by
  induction legs generalizing slots with
  | nil => simp [stagesFrom]
  | cons leg legs ih =>
    have hleg := hl leg List.mem_cons_self
    intro stage hstage
    rcases List.mem_cons.mp hstage with rfl | hstage
    · exact candidates_gross_nonneg hs hleg
    · exact ih (merged_extend hs hleg).nonneg (fun l hm => hl l (List.mem_cons_of_mem leg hm))
        stage hstage

theorem merged_foldl_extend {slots : List (Slot α)} (hs : Nonneg slots)
    {legs : List (List (State ι α))} (hne : legs ≠ []) (hl : ∀ leg ∈ legs, Proper leg) :
    Merged (legs.foldl extend slots) := by
  induction legs generalizing slots with
  | nil => exact absurd rfl hne
  | cons leg legs ih =>
    have first := merged_extend hs (hl leg (by simp))
    cases legs with
    | nil => exact first
    | cons next legs =>
      exact ih first.nonneg (by simp) (fun l hm => hl l (List.mem_cons_of_mem leg hm))

theorem merged_joint {legs : List (List (State ι α))} (hne : legs ≠ [])
    (hl : ∀ leg ∈ legs, Proper leg) : Merged (joint legs) :=
  merged_foldl_extend nonneg_start hne hl

end Wager.Parlay
