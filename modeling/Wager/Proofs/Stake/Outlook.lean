import Wager.Proofs.Distribution.Union
import Wager.Proofs.Reread
import Wager.Proofs.Scalar.Real
import Wager.Stake.Outlook

/-!
# The outlook of better matches

Over the real numbers no value of a match can rise without its estimated chance staying or rising,
and the chance is never below five percent nor above ninety-five.
-/

namespace Wager

section

variable {α : Type} [ExactScalar α]

theorem Mode.factor_pos (m : Mode) : (0 : α) < m.factor := by
  cases m <;> exact Scalar.literal_pos (by decide) _ _

namespace Tys

theorem factor_pos (g : Tys) : (0 : α) < g.factor := by
  cases g <;> exact Scalar.literal_pos (by decide) _ _

theorem factor_mono {g h : Tys} (below : all.idxOf g ≤ all.idxOf h) :
    (g.factor : α) ≤ h.factor := by
  cases g <;> cases h <;>
    first
    | exact absurd below (by decide)
    | norm_num [factor, ExactScalar.ofScientific_eq]

end Tys

namespace Fid

theorem pairwise_table :
    (table : List (α × α)).Pairwise fun p q => p.1 < q.1 ∧ p.2 ≤ q.2 := by
  norm_num [table, ExactScalar.ofScientific_eq]

theorem factor_of_mem_table : ∀ p ∈ (table : List (α × α)), factor (some p.1) = p.2 := by
  norm_num [table, factor, isAt, Scalar.abs, ExactScalar.ofScientific_eq]

theorem pos_of_mem_table : ∀ p ∈ (table : List (α × α)), 0 < p.2 := by
  norm_num [table, ExactScalar.ofScientific_eq]

theorem factor_pos (value : Option α) : 0 < factor value := by
  have one : (0 : α) < 1.0 := Scalar.literal_pos (by decide) _ _
  cases value with
  | none => exact one
  | some v =>
    rw [factor]
    cases found : table.find? fun (p : α × α) => isAt p.1 v with
    | none => exact one
    | some p => exact pos_of_mem_table p (List.mem_of_find?_eq_some found)

theorem exists_mem_table {x : α} (h : x ∈ rungs) : ∃ p ∈ (table : List (α × α)), p.1 = x :=
  List.mem_map.mp h

/-- In a table in which both columns rise, no entry with a higher rung has a lower factor. -/
theorem snd_le_of_pairwise {rows : List (α × α)}
    (rising : rows.Pairwise fun p q => p.1 < q.1 ∧ p.2 ≤ q.2) {p q : α × α} (hp : p ∈ rows)
    (hq : q ∈ rows) (h : p.1 ≤ q.1) : p.2 ≤ q.2 := by
  induction rising with
  | nil => cases hp
  | cons before _ ih =>
    rcases List.mem_cons.mp hp with rfl | p_behind <;>
      rcases List.mem_cons.mp hq with rfl | q_behind
    · exact le_rfl
    · exact (before q q_behind).2
    · exact absurd h (not_le.mpr (before p p_behind).1)
    · exact ih p_behind q_behind

theorem factor_mono {x y : α} (hx : x ∈ rungs) (hy : y ∈ rungs) (h : x ≤ y) :
    factor (some x) ≤ factor (some y) := by
  obtain ⟨p, hp, rfl⟩ := exists_mem_table hx
  obtain ⟨q, hq, rfl⟩ := exists_mem_table hy
  rw [factor_of_mem_table p hp, factor_of_mem_table q hq]
  exact snd_le_of_pairwise pairwise_table hp hq h

end Fid

namespace Outlook

def ofStored (r : StoredMatch α) : Outlook α where
  conf := r.conf
  mode := some r.mode
  tysHome := some r.tysHome
  tysAway := some r.tysAway
  fid := some r.fid
  fseHome := r.fseHome
  fseAway := r.fseAway

theorem modeFactor_pos (o : Outlook α) : 0 < o.modeFactor := by
  rw [modeFactor]
  cases o.mode with
  | none => exact Scalar.literal_pos (by decide) _ _
  | some m => exact m.factor_pos

theorem gradeFactor_pos (g : Option Tys) : (0 : α) < gradeFactor g := by
  cases g with
  | none => exact Scalar.literal_pos (by decide) _ _
  | some g => exact g.factor_pos

theorem tysFactor_pos (o : Outlook α) : 0 < o.tysFactor := by
  exact div_pos (add_pos (gradeFactor_pos _) (gradeFactor_pos _))
    (Scalar.literal_pos (by decide) _ _)

theorem tysFactor_mono {a b : Outlook α}
    (home : gradeFactor a.tysHome ≤ (gradeFactor b.tysHome : α))
    (away : gradeFactor a.tysAway ≤ (gradeFactor b.tysAway : α)) : a.tysFactor ≤ b.tysFactor := by
  exact div_le_div_of_nonneg_right (add_le_add home away) (Scalar.literal_nonneg _ _ _)

theorem confFactor_pos (o : Outlook α) : 0 < o.confFactor := by
  have low : (0 : α) < 0.15 := Scalar.literal_pos (by decide) _ _
  exact low.trans_le (Scalar.le_clamp _ _ _)

theorem confFactor_mono {a b : Outlook α} (h : a.conf ≤ b.conf) : a.confFactor ≤ b.confFactor := by
  have hundred : (0 : α) ≤ 100.0 := Scalar.literal_nonneg _ _ _
  have half : (0 : α) ≤ 0.5 := Scalar.literal_nonneg _ _ _
  apply Scalar.clamp_mono
  exact div_le_div_of_nonneg_right
    (Scalar.clamp_mono (div_le_div_of_nonneg_right h hundred) _ _) half

theorem fseShare_nonneg (percent : α) : 0 ≤ fseShare percent := by
  have share : 0 ≤ Scalar.clamp percent 0.0 100.0 :=
    (Scalar.literal_nonneg _ _ _).trans (Scalar.le_clamp percent 0.0 100.0)
  exact div_nonneg share (Scalar.literal_nonneg _ _ _)

theorem fseShare_mono {x y : α} (h : x ≤ y) : fseShare x ≤ fseShare y := by
  exact div_le_div_of_nonneg_right (Scalar.clamp_mono h _ _) (Scalar.literal_nonneg _ _ _)

theorem fseFactor_pos (o : Outlook α) : 0 < o.fseFactor := by
  have low : (0 : α) < 0.72 := Scalar.literal_pos (by decide) _ _
  exact low.trans_le (Scalar.le_clamp _ _ _)

end Outlook

theorem SizedMatch.outlook_ofStored (r : StoredMatch α) :
    (ofStored r).outlook = .ok (Outlook.ofStored r) := by
  have mode : modeOf (.text r.mode.label : Datum α) = some r.mode := Mode.ofLabel?_label r.mode
  have home : tysOf (.text [r.tysHome.code] : Datum α) = some r.tysHome := Tys.ofCode?_code _
  have away : tysOf (.text [r.tysAway.code] : Datum α) = some r.tysAway := Tys.ofCode?_code _
  simp only [outlook, ofStored, Datum.numberOr_eq, Datum.number?_eq, mode, home, away]
  rfl

end

namespace Outlook

theorem fseFactor_mono {a b : Outlook ℝ} (home : a.fseHome ≤ b.fseHome)
    (away : a.fseAway ≤ b.fseAway) : a.fseFactor ≤ b.fseFactor := by
  have slope : (0 : ℝ) ≤ 0.3 := Scalar.literal_nonneg _ _ _
  have product : fseShare a.fseHome * fseShare a.fseAway ≤
      fseShare b.fseHome * fseShare b.fseAway :=
    mul_le_mul (fseShare_mono home) (fseShare_mono away) (fseShare_nonneg _) (fseShare_nonneg _)
  apply Scalar.clamp_mono
  exact add_le_add_right (mul_le_mul_of_nonneg_right (Real.sqrt_le_sqrt product) slope) _

theorem mul_pow_mono {p q x y w : ℝ} (product : 0 ≤ p ∧ p ≤ q) (hx : 0 < x) (h : x ≤ y)
    (hw : 0 ≤ w) : 0 ≤ p * Scalar.pow x w ∧ p * Scalar.pow x w ≤ q * Scalar.pow y w := by
  have nonneg : 0 ≤ Scalar.pow x w := Real.rpow_nonneg hx.le w
  have rises : Scalar.pow x w ≤ Scalar.pow y w := Real.rpow_le_rpow hx.le h hw
  exact ⟨mul_nonneg product.1 nonneg,
    mul_le_mul product.2 rises nonneg (product.1.trans product.2)⟩

theorem lift_mono {a b : Outlook ℝ} (conf : a.confFactor ≤ b.confFactor)
    (mode : a.modeFactor ≤ b.modeFactor) (tys : a.tysFactor ≤ b.tysFactor)
    (fid : Fid.factor a.fid ≤ Fid.factor b.fid) (fse : a.fseFactor ≤ b.fseFactor) :
    a.lift ≤ b.lift := by
  have confWeight_nonneg : (0 : ℝ) ≤ confWeight := Scalar.literal_nonneg _ _ _
  have modeWeight_nonneg : (0 : ℝ) ≤ modeWeight := Scalar.literal_nonneg _ _ _
  have tysWeight_nonneg : (0 : ℝ) ≤ tysWeight := Scalar.literal_nonneg _ _ _
  have fidWeight_nonneg : (0 : ℝ) ≤ fidWeight := Scalar.literal_nonneg _ _ _
  have fseWeight_nonneg : (0 : ℝ) ≤ fseWeight := Scalar.literal_nonneg _ _ _
  have first : 0 ≤ Scalar.pow a.confFactor confWeight ∧
      Scalar.pow a.confFactor confWeight ≤ Scalar.pow b.confFactor confWeight :=
    ⟨Real.rpow_nonneg a.confFactor_pos.le _,
      Real.rpow_le_rpow a.confFactor_pos.le conf confWeight_nonneg⟩
  have second := mul_pow_mono first a.modeFactor_pos mode modeWeight_nonneg
  have third := mul_pow_mono second a.tysFactor_pos tys tysWeight_nonneg
  have fourth := mul_pow_mono third (Fid.factor_pos a.fid) fid fidWeight_nonneg
  exact (mul_pow_mono fourth a.fseFactor_pos fse fseWeight_nonneg).2

theorem probability_mono {a b : Outlook ℝ} (h : a.lift ≤ b.lift) :
    a.probability ≤ b.probability := by
  have half : (0 : ℝ) ≤ 0.5 := Scalar.literal_nonneg _ _ _
  exact Scalar.clamp_mono (mul_le_mul_of_nonneg_left h half) _ _

theorem probability_mem {α : Type} [ExactScalar α] (o : Outlook α) :
    0.05 ≤ o.probability ∧ o.probability ≤ 0.95 := by
  have bounds : (0.05 : α) ≤ 0.95 := by norm_num [ExactScalar.ofScientific_eq]
  exact ⟨Scalar.le_clamp _ _ _, Scalar.clamp_le _ bounds⟩

end Outlook

namespace StoredMatch

/-- Whether a match is nowhere above another one of the same mode. -/
structure IsBelow (a b : StoredMatch ℝ) : Prop where
  mode : a.mode = b.mode
  conf : a.conf ≤ b.conf
  fseHome : a.fseHome ≤ b.fseHome
  fseAway : a.fseAway ≤ b.fseAway
  tysHome : Tys.all.idxOf a.tysHome ≤ Tys.all.idxOf b.tysHome
  tysAway : Tys.all.idxOf a.tysAway ≤ Tys.all.idxOf b.tysAway
  fid : a.fid ≤ b.fid

theorem IsBelow.lift_le {a b : StoredMatch ℝ} (h : a.IsBelow b) (ha : a.fid ∈ Fid.rungs)
    (hb : b.fid ∈ Fid.rungs) : (Outlook.ofStored a).lift ≤ (Outlook.ofStored b).lift := by
  apply Outlook.lift_mono
  · exact Outlook.confFactor_mono (Int.cast_le.mpr h.conf)
  · exact (congrArg (fun m => (some m).elim 1.0 Mode.factor) h.mode).le
  · exact Outlook.tysFactor_mono (Tys.factor_mono h.tysHome) (Tys.factor_mono h.tysAway)
  · exact Fid.factor_mono ha hb h.fid
  · exact Outlook.fseFactor_mono (Int.cast_le.mpr h.fseHome) (Int.cast_le.mpr h.fseAway)

/-- In exact arithmetic an accepted match that is nowhere above another one is estimated no higher,
and the chances of both lie between five and ninety-five percent. -/
theorem probability_le [Coercion ℝ] {a b : StoredMatch ℝ} (ha : a.IsAccepted) (hb : b.IsAccepted)
    (below : a.IsBelow b) : ∃ p q : ℝ, (SizedMatch.ofStored a).probability = .ok p ∧
      (SizedMatch.ofStored b).probability = .ok q ∧ p ≤ q ∧ (0.05 ≤ p ∧ p ≤ 0.95) ∧
      (0.05 ≤ q ∧ q ≤ 0.95) := by
  have estimate (r : StoredMatch ℝ) :
      (SizedMatch.ofStored r).probability = .ok (Outlook.ofStored r).probability := by
    rw [SizedMatch.probability, SizedMatch.outlook_ofStored]
    rfl
  refine ⟨_, _, estimate a, estimate b, ?_, Outlook.probability_mem _, Outlook.probability_mem _⟩
  exact Outlook.probability_mono (below.lift_le ha.isLawful.fid hb.isLawful.fid)

noncomputable instance : Coercion ℝ := .lax

/-- A gamble that is stored with a little confidence and a small home side. -/
def modestFields : List (Text × Datum ℝ) :=
  [("conf".toList, .int 40), ("mode".toList, .text "赌一把".toList),
    ("tys_home".toList, .text " s ".toList)]

noncomputable def modest : StoredMatch ℝ :=
  ⟨none, [], [], [], none, 40, .gamble, .small, .medium, Fid.middle, 50, 50, []⟩

/-- The same gamble with more confidence, a heavy home side, the highest rung and a better home
form. -/
noncomputable def keenFields : List (Text × Datum ℝ) :=
  [("conf".toList, .int 80), ("mode".toList, .text "赌一把".toList),
    ("tys_home".toList, .text "H".toList), ("fid".toList, .real 0.75),
    ("fse_home".toList, .int 60)]

noncomputable def keen : StoredMatch ℝ :=
  ⟨none, [], [], [], none, 80, .gamble, .heavy, .medium, 0.75, 60, 50, []⟩

theorem probability_le_keen : modest.IsAccepted ∧ keen.IsAccepted ∧ modest.IsBelow keen ∧
    ∃ p q : ℝ, (SizedMatch.ofStored modest).probability = .ok p ∧
      (SizedMatch.ofStored keen).probability = .ok q ∧ p ≤ q ∧ (0.05 ≤ p ∧ p ≤ 0.95) ∧
      (0.05 ≤ q ∧ q ≤ 0.95) := by
  have modest_read : ofFields modestFields = .ok modest := rfl
  have rung : Fid.rungOf? (0.75 : ℝ) = some 0.75 := by
    norm_num [Fid.rungOf?, Fid.rungs, Fid.isAt, Scalar.abs, ExactScalar.ofScientific_eq]
  have keen_read : ofFields keenFields = .ok keen := by
    apply ofFields_eq_ok_iff.mpr
    exact ⟨rfl, ⟨rfl, rfl, rfl, rfl, rfl, rfl, rfl, rfl,
      Check.fieldOr_of_lookup_ok rfl (checkFid_real rung), rfl, rfl⟩, rfl⟩
  have rungs : (Fid.middle : ℝ) ≤ 0.75 := by
    norm_num [Fid.middle, ExactScalar.ofScientific_eq]
  have below : modest.IsBelow keen :=
    ⟨rfl, by decide, by decide, by decide, by decide, by decide, rungs⟩
  have accepted : modest.IsAccepted ∧ keen.IsAccepted :=
    ⟨⟨.object modestFields, modest_read⟩, ⟨.object keenFields, keen_read⟩⟩
  exact ⟨accepted.1, accepted.2, below, probability_le accepted.1 accepted.2 below⟩

end StoredMatch

end Wager
