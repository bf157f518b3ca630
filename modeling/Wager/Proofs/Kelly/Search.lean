import Wager.Proofs.Kelly.Grid

/-!
# How close the search comes

A scan keeps the best of the points it meets.  Where the growth rises up to one peak and falls
behind it, this brings every scan of a window within a step of the peak, or to the end of the window
on the side of the peak.  A refinement moves the incumbent by up to two steps and then halves the
step, so all of them together bridge almost four times the first step.
-/

namespace Wager.Kelly

open Odds

variable {α : Type} [ExactScalar α] {states : List (Prospect α)} {limit peak step : α}

/-- An incumbent has the growth at its fraction as its score, and its fraction is allowed. -/
structure Incumbent.Valid (states : List (Prospect α)) (limit : α) (best : Incumbent α) : Prop where
  growth_eq : logGrowth states best.fraction = some best.score
  nonneg : 0 ≤ best.fraction
  le_limit : best.fraction ≤ limit

/-- No point among these grows faster than the incumbent. -/
def Incumbent.Beats (states : List (Prospect α)) (best : Incumbent α) (points : List α) : Prop :=
  ∀ p ∈ points, ∀ w, logGrowth states p = some w → w ≤ best.score

theorem improve_cases (states : List (Prospect α)) (best : Incumbent α) (p : α) :
    (improve states best p = best ∧ ∀ w, logGrowth states p = some w → w ≤ best.score) ∨
      ∃ w, logGrowth states p = some w ∧ best.score < w ∧ improve states best p = ⟨p, w⟩ := by
  unfold improve
  cases defined : logGrowth states p with
  | none => simp
  | some w =>
    rcases lt_or_ge best.score w with better | worse
    · exact .inr ⟨w, rfl, better, if_pos better⟩
    · refine .inl ⟨if_neg worse.not_gt, ?_⟩
      rintro _ ⟨⟩
      exact worse

theorem scan_cons (states : List (Prospect α)) (best : Incumbent α) (p : α) (points : List α) :
    scan states best (p :: points) = scan states (improve states best p) points := rfl

/-- A scan leaves the incumbent as it is or moves it to a point that grows strictly faster. -/
theorem scan_cases (states : List (Prospect α)) (best : Incumbent α) (points : List α) :
    scan states best points = best ∨
      (scan states best points).fraction ∈ points ∧
        logGrowth states (scan states best points).fraction =
          some (scan states best points).score ∧
        best.score < (scan states best points).score := by
  induction points generalizing best with
  | nil => exact .inl rfl
  | cons p points ih =>
    rw [scan_cons]
    rcases improve_cases states best p with ⟨same, -⟩ | ⟨w, defined, better, moved⟩
    · rw [same]
      exact (ih best).imp_right fun ⟨found, rest⟩ => ⟨List.mem_cons_of_mem _ found, rest⟩
    · rw [moved]
      right
      rcases ih ⟨p, w⟩ with kept | ⟨found, growth, above⟩
      · rw [kept]
        exact ⟨List.mem_cons_self, defined, better⟩
      · exact ⟨List.mem_cons_of_mem _ found, growth, better.trans above⟩

theorem score_le_scan (states : List (Prospect α)) (best : Incumbent α) (points : List α) :
    best.score ≤ (scan states best points).score := by
  rcases scan_cases states best points with kept | ⟨-, -, above⟩
  · rw [kept]
  · exact above.le

theorem scan_beats (states : List (Prospect α)) (best : Incumbent α) (points : List α) :
    (scan states best points).Beats states points := by
  induction points generalizing best with
  | nil => exact fun p hp => absurd hp List.not_mem_nil
  | cons q points ih =>
    intro p hp w defined
    rw [scan_cons]
    rcases List.mem_cons.mp hp with rfl | hp
    · apply le_trans _ (score_le_scan states (improve states best p) points)
      rcases improve_cases states best p with ⟨same, below⟩ | ⟨v, known, -, moved⟩
      · rw [same]
        exact below w defined
      · rw [moved]
        exact (Option.some.inj (defined.symm.trans known)).le
    · exact ih _ p hp w defined

theorem valid_scan {best : Incumbent α} (valid : best.Valid states limit)
    {points : List α} (inside : ∀ p ∈ points, 0 ≤ p ∧ p ≤ limit) :
    (scan states best points).Valid states limit := by
  rcases scan_cases states best points with kept | ⟨found, growth, -⟩
  · rwa [kept]
  · exact ⟨growth, (inside _ found).1, (inside _ found).2⟩

/-- Wherever the growth is defined, it rises strictly on the way to the peak. -/
def PeaksAt (states : List (Prospect α)) (limit peak : α) : Prop :=
  ∀ x y v, 0 ≤ x → x ≤ limit → logGrowth states x = some v →
    (x < y ∧ y ≤ peak ∨ peak ≤ y ∧ y < x) → ∃ w, logGrowth states y = some w ∧ v < w

namespace Incumbent.Valid

variable {best : Incumbent α} {points : List α}

/-- An incumbent is not further from the peak than a point that it beats on its side. -/
private theorem not_between (valid : best.Valid states limit) (peaks : PeaksAt states limit peak)
    (beats : best.Beats states points) {p : α} (hp : p ∈ points) :
    ¬(best.fraction < p ∧ p ≤ peak ∨ peak ≤ p ∧ p < best.fraction) := by
  intro between
  obtain ⟨w, defined, above⟩ :=
    peaks _ p _ valid.nonneg valid.le_limit valid.growth_eq between
  exact above.not_ge (beats p hp w defined)

theorem ge_of_beats (valid : best.Valid states limit) (peaks : PeaksAt states limit peak)
    (beats : best.Beats states points) {p : α} (hp : p ∈ points) (below : p ≤ peak) :
    p ≤ best.fraction := by
  by_contra h
  exact valid.not_between peaks beats hp (.inl ⟨not_le.mp h, below⟩)

theorem le_of_beats (valid : best.Valid states limit) (peaks : PeaksAt states limit peak)
    (beats : best.Beats states points) {p : α} (hp : p ∈ points) (above : peak ≤ p) :
    best.fraction ≤ p := by
  by_contra h
  exact valid.not_between peaks beats hp (.inr ⟨above, not_le.mp h⟩)

theorem near_of_mem (valid : best.Valid states limit) (peaks : PeaksAt states limit peak)
    {low high : α} (beats : best.Beats states (grid low high step)) (hs : negligible ≤ step)
    (hl : low ≤ peak) (hh : peak ≤ high) (within : best.fraction ≤ high) :
    |best.fraction - peak| ≤ step := by
  have positive : 0 < step := negligible_pos.trans_le hs
  obtain ⟨p, hp, below, next⟩ := exists_mem_grid_le positive hl hh
  have left := valid.ge_of_beats peaks beats hp below
  rw [abs_le]
  refine ⟨by linarith, ?_⟩
  rcases exists_le_mem_grid positive hl hh with ⟨q, hq, above, near⟩ | close
  · have right := valid.le_of_beats peaks beats hq above
    linarith
  · linarith

end Incumbent.Valid

/-- Where a refinement looks: two steps to either side, within the limits. -/
def windowLow (step fraction : α) : α := max 0 (fraction - 2 * step)

@[inherit_doc windowLow]
def windowHigh (limit step fraction : α) : α := min limit (fraction + 2 * step)

def window (limit step fraction : α) : List α :=
  grid (windowLow step fraction) (windowHigh limit step fraction) step

theorem refine_succ (rounds : Nat) (best : Incumbent α) :
    refine states limit (rounds + 1) step best =
      refine states limit rounds (step / 2)
        (scan states best (window limit step best.fraction)) := by
  have two : (2.0 : α) = 2 := by
    rw [ExactScalar.ofScientific_eq]
    norm_num
  have half : (0.5 : α) = 1 / 2 := by
    rw [ExactScalar.ofScientific_eq]
    norm_num
  simp only [refine, window, windowLow, windowHigh, Scalar.zero_literal, Scalar.max_eq,
    Scalar.min_eq, two, half]
  rw [mul_one_div]

section

variable {best : Incumbent α}

theorem Incumbent.Valid.mem_window (valid : best.Valid states limit) (hs : 0 < step) :
    windowLow step best.fraction ≤ best.fraction ∧
      best.fraction ≤ windowHigh limit step best.fraction := by
  constructor
  · exact max_le valid.nonneg (by linarith)
  · exact le_min valid.le_limit (by linarith)

private theorem scan_window_mem (valid : best.Valid states limit) (hs : 0 < step) :
    windowLow step best.fraction ≤
        (scan states best (window limit step best.fraction)).fraction ∧
      (scan states best (window limit step best.fraction)).fraction ≤
        windowHigh limit step best.fraction := by
  have ends := valid.mem_window hs
  rcases scan_cases states best (window limit step best.fraction) with kept | ⟨found, -⟩
  · rwa [kept]
  · exact mem_Icc_of_mem_grid (ends.1.trans ends.2) hs found

theorem valid_scan_window (valid : best.Valid states limit) (hs : 0 < step) :
    (scan states best (window limit step best.fraction)).Valid states limit := by
  apply valid_scan valid
  intro p hp
  have ends := valid.mem_window hs
  obtain ⟨above, below⟩ := mem_Icc_of_mem_grid (ends.1.trans ends.2) hs hp
  exact ⟨(le_max_left _ _).trans above, below.trans (min_le_left _ _)⟩

theorem near_scan_window (valid : best.Valid states limit) (peaks : PeaksAt states limit peak)
    (hs : negligible ≤ step) (h0 : 0 ≤ peak) (hlimit : peak ≤ limit) :
    |(scan states best (window limit step best.fraction)).fraction - peak| ≤
      max step (|best.fraction - peak| - 2 * step + negligible) := by
  have positive : 0 < step := negligible_pos.trans_le hs
  have ends := valid.mem_window positive
  have kept := valid_scan_window valid positive
  have beats := scan_beats states best (window limit step best.fraction)
  obtain ⟨above, below⟩ := scan_window_mem valid positive
  set found := scan states best (window limit step best.fraction)
  rcases lt_or_ge peak (windowLow step best.fraction) with left | hl
  · -- the peak is left of the window, which then starts two steps below the incumbent
    have start : windowLow step best.fraction = best.fraction - 2 * step :=
      (max_choice _ _).resolve_left fun zero => h0.not_gt (zero ▸ left)
    have reached := kept.le_of_beats peaks beats (low_mem_grid (ends.1.trans ends.2)) left.le
    rw [start] at above left reached
    apply le_max_of_le_right
    rw [abs_of_nonneg (by linarith), abs_of_nonneg (by linarith)]
    linarith [negligible_pos (α := α)]
  · rcases lt_or_ge (windowHigh limit step best.fraction) peak with right | hh
    · have stop : windowHigh limit step best.fraction = best.fraction + 2 * step :=
        (min_choice _ _).resolve_left fun all => hlimit.not_gt (all ▸ right)
      obtain ⟨p, hp, close⟩ : ∃ p ∈ window limit step best.fraction,
          windowHigh limit step best.fraction - negligible ≤ p :=
        exists_mem_grid_high (ends.1.trans ends.2)
      have inside := (mem_Icc_of_mem_grid (ends.1.trans ends.2) positive hp).2
      have reached := kept.ge_of_beats peaks beats hp (inside.trans right.le)
      rw [stop] at below right close
      apply le_max_of_le_right
      rw [abs_of_nonpos (by linarith), abs_of_nonpos (by linarith)]
      linarith
    · exact le_max_of_le_left (kept.near_of_mem peaks beats hs hl hh below)

end

/-- From a distance of five steps or more, the refinements bridge almost four steps. -/
theorem near_refine (peaks : PeaksAt states limit peak) (h0 : 0 ≤ peak) (hlimit : peak ≤ limit)
    (rounds : Nat) {best : Incumbent α} {distance : α} (valid : best.Valid states limit)
    (hs : negligible ≤ step / 2 ^ rounds) (wide : 5 * step ≤ distance)
    (near : |best.fraction - peak| ≤ distance) :
    |(refine states limit rounds step best).fraction - peak| ≤
      distance - 4 * step * (1 - 1 / 2 ^ rounds) + rounds * negligible := by
  induction rounds generalizing step best distance with
  | zero => simpa [refine] using near
  | succ rounds ih =>
    have power : (1 : α) ≤ 2 ^ (rounds + 1) := one_le_pow₀ one_le_two
    have small : negligible ≤ step := by
      have positive : 0 ≤ step := by
        by_contra h
        have := div_nonpos_of_nonpos_of_nonneg (not_le.mp h).le (zero_le_one.trans power)
        linarith [negligible_pos (α := α)]
      exact hs.trans (div_le_self positive power)
    have positive : 0 < step := negligible_pos.trans_le small
    have closer := near_scan_window valid peaks small h0 hlimit
    rw [refine_succ]
    calc _ ≤ (distance - 2 * step + negligible) - 4 * (step / 2) * (1 - 1 / 2 ^ rounds) +
          rounds * negligible := by
          apply ih (valid_scan_window valid positive)
          · rwa [div_div, ← pow_succ']
          · linarith [negligible_pos (α := α)]
          · apply closer.trans
            apply max_le
            · linarith [negligible_pos (α := α)]
            · linarith
      _ = distance - 4 * step * (1 - 1 / 2 ^ (rounds + 1)) + (rounds + 1 : Nat) * negligible := by
          push_cast
          field_simp
          ring

theorem valid_refine (rounds : Nat) {best : Incumbent α} (valid : best.Valid states limit)
    (hs : 0 < step) : (refine states limit rounds step best).Valid states limit := by
  induction rounds generalizing step best with
  | zero => exact valid
  | succ rounds ih =>
    rw [refine_succ]
    exact ih (valid_scan_window valid hs) (by linarith)

theorem logGrowth_zero (states : List (Prospect α)) : (logGrowth states 0).isSome = true := by
  have solvent : (1e-9 : α) < 1 := by
    rw [ExactScalar.ofScientific_eq]
    norm_num
  unfold logGrowth
  rw [if_neg]
  · rfl
  · simp [growth, solvent]

def start (states : List (Prospect α)) : Incumbent α := ⟨0, (logGrowth states 0).getD 0⟩

def coarse (states : List (Prospect α)) (limit : α) : Incumbent α :=
  scan states (start states) (grid 0 limit coarseStep).tail

theorem coarseStep_eq : (coarseStep : α) = 1 / 50 := by
  rw [coarseStep, ExactScalar.ofScientific_eq]
  norm_num

theorem valid_start (states : List (Prospect α)) (hlimit : 0 ≤ limit) :
    (start states).Valid states limit := by
  refine ⟨?_, le_rfl, hlimit⟩
  obtain ⟨v, defined⟩ := Option.isSome_iff_exists.mp (logGrowth_zero states)
  simp [start, defined]

theorem valid_coarse (states : List (Prospect α)) (hlimit : 0 ≤ limit) :
    (coarse states limit).Valid states limit := by
  apply valid_scan (valid_start states hlimit)
  intro p hp
  have positive : (0 : α) < coarseStep := by
    rw [coarseStep_eq]
    norm_num
  exact mem_Icc_of_mem_grid hlimit positive (List.mem_of_mem_tail hp)

theorem coarse_beats (states : List (Prospect α)) (hlimit : 0 ≤ limit) :
    (coarse states limit).Beats states (grid 0 limit coarseStep) := by
  intro p hp w defined
  rw [grid_eq_cons hlimit] at hp
  rcases List.mem_cons.mp hp with rfl | hp
  · apply le_trans _ (score_le_scan states (start states) _)
    simp [start, defined]
  · exact scan_beats states (start states) _ p hp w defined

theorem search_eq (states : List (Prospect α)) (hlimit : 0 ≤ limit) :
    search states limit = (refine states limit 4 (1 / 250) (coarse states limit)).fraction := by
  have fine : (coarseStep / 5.0 : α) = 1 / 250 := by
    rw [coarseStep_eq, ExactScalar.ofScientific_eq]
    norm_num
  have valid := valid_refine 4 (valid_coarse states hlimit) (show (0 : α) < 1 / 250 by norm_num)
  simp only [search, Scalar.zero_literal, fine]
  exact Scalar.clamp_of_mem valid.nonneg valid.le_limit

theorem near_search (peaks : PeaksAt states limit peak) (h0 : 0 ≤ peak) (hlimit : peak ≤ limit) :
    |search states limit - peak| < 51 / 10000 := by
  have nonneg := h0.trans hlimit
  have valid := valid_coarse states nonneg
  have near : |(coarse states limit).fraction - peak| ≤ 1 / 50 := by
    rw [← coarseStep_eq]
    apply valid.near_of_mem peaks (coarse_beats states nonneg) _ h0 hlimit valid.le_limit
    rw [negligible_eq, coarseStep_eq]
    norm_num
  rw [search_eq states nonneg]
  have small : (negligible : α) ≤ 1 / 250 / 2 ^ 4 := by
    rw [negligible_eq]
    norm_num
  have closer := near_refine peaks h0 hlimit 4 valid small (by norm_num) near
  apply closer.trans_lt
  rw [negligible_eq]
  norm_num

end Wager.Kelly
