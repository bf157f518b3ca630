import Wager.Proofs.Kelly.Search
import Wager.Proofs.Scalar.Real

/-!
# The growth of a bankroll

Over the reals, the expected logarithm of growth is concave in the fraction staked.  So where one
fraction grows fastest, growth rises up to it and falls behind it.
-/

namespace Wager.Kelly

variable {states : List (Prospect ℝ)} {limit best : ℝ}

def Solvent (states : List (Prospect ℝ)) (fraction : ℝ) : Prop :=
  ∀ s ∈ states, 1e-9 < 1 + fraction * s.net

noncomputable def rate (states : List (Prospect ℝ)) (fraction : ℝ) : ℝ :=
  (states.map fun s => s.probability * Real.log (1 + fraction * s.net)).sum

open Classical in
/-- What the growth-optimal fraction maximises; minus infinity where some state is a ruin. -/
noncomputable def objective (states : List (Prospect ℝ)) (fraction : ℝ) : WithBot ℝ :=
  if Solvent states fraction then (rate states fraction : ℝ) else ⊥

theorem logGrowth_eq_some (states : List (Prospect ℝ)) (fraction w : ℝ) :
    logGrowth states fraction = some w ↔ Solvent states fraction ∧ rate states fraction = w := by
  have growth_eq (s : Prospect ℝ) : growth fraction s = 1 + fraction * s.net := by
    rw [growth, Scalar.one_literal]
  have ruined : (states.any fun s => decide (growth fraction s ≤ 1e-9)) = true ↔
      ¬Solvent states fraction := by
    rw [List.any_eq_true, Solvent]
    push Not
    simp only [growth_eq, decide_eq_true_eq]
  unfold logGrowth
  split
  next h => simp [ruined.mp h]
  next h =>
    rw [ruined, not_not] at h
    rw [Scalar.sum_eq, Option.some_inj, and_iff_right h]
    simp only [growth_eq]
    rfl

theorem solvent_zero (states : List (Prospect ℝ)) : Solvent states 0 := by
  intro s _
  norm_num

theorem objective_of_solvent {x : ℝ} (h : Solvent states x) : objective states x = rate states x :=
  if_pos h

theorem solvent_of_objective {x y : ℝ} (h : objective states x < objective states y) :
    Solvent states y := by
  by_contra ruin
  rw [objective, objective, if_neg ruin] at h
  exact not_lt_bot h

theorem convex_solvent (states : List (Prospect ℝ)) : Convex ℝ {x | Solvent states x} := by
  intro x hx y hy a b ha hb hab s hs
  have mixed : 1 + (a • x + b • y) * s.net = a * (1 + x * s.net) + b * (1 + y * s.net) := by
    rw [smul_eq_mul, smul_eq_mul]
    linear_combination -hab
  change _ < _
  rw [mixed]
  exact convex_Ioi (1e-9 : ℝ) (hx s hs) (hy s hs) ha hb hab

theorem concaveOn_rate (mass : ∀ s ∈ states, 0 ≤ s.probability) :
    ConcaveOn ℝ {x | Solvent states x} (rate states) := by
  induction states with
  | nil => exact concaveOn_const 0 (convex_solvent [])
  | cons s states ih =>
    have rest := ih fun t ht => mass t (List.mem_cons_of_mem _ ht)
    have first := strictConcaveOn_log_Ioi.concaveOn.comp_affineMap
      (AffineMap.lineMap (1 : ℝ) (1 + s.net))
    have line (x : ℝ) : AffineMap.lineMap (1 : ℝ) (1 + s.net) x = 1 + x * s.net := by
      rw [AffineMap.lineMap_apply_ring']
      ring
    have solvent := convex_solvent (s :: states)
    have positive {x : ℝ} (hx : Solvent (s :: states) x) :
        AffineMap.lineMap (1 : ℝ) (1 + s.net) x ∈ Set.Ioi (0 : ℝ) := by
      rw [line]
      exact lt_trans (by positivity) (hx s List.mem_cons_self)
    have sum := ((first.subset (fun x hx => positive hx) solvent).smul
      (mass s List.mem_cons_self)).add
        (rest.subset (fun x hx t ht => hx t (List.mem_cons_of_mem _ ht)) solvent)
    refine sum.congr fun x _ => ?_
    simp [rate, line]

section

variable (unique : ∀ x ∈ Set.Icc 0 limit, x ≠ best → objective states x < objective states best)
include unique

theorem ne_nil_of_unique (positive : 0 < limit) : states ≠ [] := by
  rintro rfl
  have flat (x : ℝ) : objective [] x = 0 := by
    simp [objective, Solvent, rate]
  obtain ⟨x, hx, other⟩ : ∃ x ∈ Set.Icc 0 limit, x ≠ best := by
    rcases eq_or_ne best 0 with rfl | h
    · exact ⟨limit, ⟨positive.le, le_rfl⟩, positive.ne'⟩
    · exact ⟨0, ⟨le_rfl, positive.le⟩, h.symm⟩
  have less := unique x hx other
  rw [flat, flat] at less
  exact lt_irrefl _ less

theorem peaksAt_of_unique (mass : ∀ s ∈ states, 0 ≤ s.probability) (h0 : 0 ≤ best)
    (hlimit : best ≤ limit) : PeaksAt states limit best := by
  have top : Solvent states best := by
    rcases eq_or_ne best 0 with rfl | other
    · exact solvent_zero states
    · exact solvent_of_objective (unique 0 ⟨le_rfl, h0.trans hlimit⟩ other.symm)
  have slower {x : ℝ} (hx0 : 0 ≤ x) (hxl : x ≤ limit) (hx : Solvent states x) (other : x ≠ best) :
      rate states x < rate states best := by
    have := unique x ⟨hx0, hxl⟩ other
    rwa [objective_of_solvent hx, objective_of_solvent top, WithBot.coe_lt_coe] at this
  intro x y v hx0 hxl defined between
  obtain ⟨hx, rfl⟩ := (logGrowth_eq_some states x v).mp defined
  obtain ⟨moved, hy0, hyl, inside⟩ : x ≠ best ∧ 0 ≤ y ∧ y ≤ limit ∧
      (y ≠ best → y ∈ openSegment ℝ x best) := by
    rcases between with ⟨h, hb⟩ | ⟨hb, h⟩
    · refine ⟨(h.trans_le hb).ne, hx0.trans h.le, hb.trans hlimit, fun other => ?_⟩
      rw [openSegment_eq_Ioo (h.trans_le hb)]
      exact ⟨h, lt_of_le_of_ne hb other⟩
    · refine ⟨(hb.trans_lt h).ne', h0.trans hb, h.le.trans hxl, fun other => ?_⟩
      rw [openSegment_symm, openSegment_eq_Ioo (hb.trans_lt h)]
      exact ⟨lt_of_le_of_ne hb other.symm, h⟩
  rcases eq_or_ne y best with rfl | other
  · exact ⟨_, (logGrowth_eq_some states y _).mpr ⟨top, rfl⟩, slower hx0 hxl hx moved⟩
  · have hy : Solvent states y := (convex_solvent states).openSegment_subset hx top (inside other)
    refine ⟨_, (logGrowth_eq_some states y _).mpr ⟨hy, rfl⟩, ?_⟩
    exact (concaveOn_rate mass).left_lt_of_lt_right hx top (inside other) (slower hy0 hyl hy other)

end

end Wager.Kelly
