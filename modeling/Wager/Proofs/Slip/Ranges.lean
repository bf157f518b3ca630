import Wager.Proofs.Entry.Key
import Wager.Proofs.Scalar.Rounding
import Wager.Proofs.Slip.Typed
import Wager.Proofs.Slip.Values

/-!
# Values in their ranges

Whatever a slip states, the values taken out of it are in range: percentages from 0 to 100, finite
prices above one in groups that are not empty, TYS codes, rungs of the FID ladder and a mode of the
list.  This holds in the arithmetic of machine doubles, where a fraction is scaled and a half added
with a rounding error each.
-/

namespace Wager

namespace Percent

open Double

variable {x : Float}

theorem upTo_one (finite : x.isFinite = true) (nonneg : ¬x < 0.0) (share : x ≤ 1.0) : UpTo 1 x := by
  have below : ¬(1.0 : Float) < x := fun above => ((Std.LawfulOrderLT.lt_iff _ _).mp above).2 share
  have bound := upTo_of_not_lt (n := 1.0) (k := 2 ^ 52) (f := -52) (by norm_num) finite nonneg
    below rfl
  norm_num at bound
  exact bound

theorem upTo_hundred (finite : x.isFinite = true) (nonneg : ¬x < 0.0) (top : ¬100.0 < x) :
    UpTo 100 x := by
  have bound := upTo_of_not_lt (n := 100.0) (k := 100 * 2 ^ 46) (f := -46) (by norm_num) finite
    nonneg top rfl
  norm_num at bound
  exact bound

theorem upTo_half : UpTo (1 / 2) 0.5 := by
  have bound := upTo_of_not_lt (x := 0.5) (n := 0.5) (k := 2 ^ 52) (f := -53) (by norm_num)
    (by decide) (by decide) (by decide) rfl
  norm_num at bound
  exact bound

theorem inRange_roundHalfUp {bound : ℚ} (h : UpTo bound x) (near : bound ≤ 100 + 1 / 4) :
    InRange (Scalar.roundHalfUp x) := by
  have sum := h.add upTo_half (N := 7) (by norm_num; linarith) (by norm_num) (by norm_num)
  obtain ⟨low, high⟩ := sum.floor
  refine ⟨low, high.trans (Int.lt_add_one_iff.mp (Int.floor_lt.mpr ?_))⟩
  norm_num
  linarith

theorem inRange_roundHalfUp_of_percent (finite : x.isFinite = true) (nonneg : ¬x < 0.0)
    (top : ¬100.0 < x) : InRange (Scalar.roundHalfUp x) :=
  inRange_roundHalfUp (upTo_hundred finite nonneg top) (by norm_num)

theorem inRange_roundHalfUp_of_share (finite : x.isFinite = true) (nonneg : ¬x < 0.0)
    (share : x ≤ 1.0) : InRange (Scalar.roundHalfUp (x * 100.0)) := by
  have scaled := (upTo_one finite nonneg share).mul
    (upTo_hundred (x := 100.0) (by decide) (by decide) (by decide)) (N := 7) (by norm_num)
    (by norm_num) (by norm_num)
  exact inRange_roundHalfUp scaled (by norm_num)

theorem inRange_readConfidence (finite : x.isFinite = true) (typed : Text) {n : Int}
    (read : (readConfidence typed (some x)).percent = some n) : InRange n := by
  unfold readConfidence at read
  dsimp only at read
  split_ifs at read with negative share percent large tenths
  · obtain rfl := Option.some.inj read
    exact inRange_roundHalfUp_of_share finite negative share
  · obtain rfl := Option.some.inj read
    have below : ¬100.0 < x := fun above => ((Std.LawfulOrderLT.lt_iff _ _).mp above).2 percent.2
    exact inRange_roundHalfUp_of_percent finite negative below
  · obtain rfl := Option.some.inj read
    exact ⟨by omega, by omega⟩
  · obtain rfl := Option.some.inj read
    exact inRange_roundHalfUp_of_percent finite negative large

theorem inRange_readFse (finite : x.isFinite = true) {n : Int} (read : readFse (some x) = some n) :
    InRange n := by
  unfold readFse at read
  dsimp only at read
  split_ifs at read with negative share percent
  · obtain rfl := Option.some.inj read
    exact inRange_roundHalfUp_of_share finite negative share
  · obtain rfl := Option.some.inj read
    have below : ¬100.0 < x := fun above => ((Std.LawfulOrderLT.lt_iff _ _).mp above).2 percent
    exact inRange_roundHalfUp_of_percent finite negative below

end Percent

/-- Whether the parameters of a slip have nothing out of range in them. -/
structure Parameters.WithinLimits (p : Parameters Float) : Prop where
  conf : ∀ n ∈ p.conf, Percent.InRange n
  fse : ∀ n ∈ p.fse, Percent.InRange n
  fseHome : ∀ n ∈ p.fseHome, Percent.InRange n
  fseAway : ∀ n ∈ p.fseAway, Percent.InRange n
  odds : ∀ x ∈ p.odds, x.isFinite = true ∧ 1.0 < x
  grouped : p.oddsGroups.flatten = p.odds
  group_ne_nil : ∀ g ∈ p.oddsGroups, g ≠ []
  tys : ∀ g ∈ p.tys ++ p.tysHome ++ p.tysAway, g.code ∈ ['S', 'M', 'L', 'H']
  fid : ∀ x ∈ p.fid, x ∈ Fid.rungs
  mode : ∀ m ∈ p.mode, m.label ∈ Mode.all.map Mode.label

namespace Extraction

theorem inRange_of_mem_fseValues {typed : List Text} {n : Int} (h : n ∈ fseValues Float typed) :
    Percent.InRange n := by
  obtain ⟨t, -, read⟩ := List.mem_filterMap.mp h
  cases number : (Scalar.ofText? t : Option Float) with
  | none =>
    rw [number] at read
    cases read
  | some x =>
    rw [number] at read
    exact Percent.inRange_readFse (Reading.isFinite_of_ofText? number) read

theorem inRange_of_mem_confidences {typed : List Text} {n : Int}
    (h : n ∈ (confidences Float typed).filterMap (·.percent)) : Percent.InRange n := by
  obtain ⟨reading, made, read⟩ := List.mem_filterMap.mp h
  obtain ⟨t, -, rfl⟩ := List.mem_map.mp made
  cases number : (Scalar.ofText? t : Option Float) with
  | none =>
    rw [number] at read
    cases read
  | some x =>
    rw [number] at read
    exact Percent.inRange_readConfidence (Reading.isFinite_of_ofText? number) t read

theorem isFinite_of_mem_prices {typed : List Text} {x : Float} (h : x ∈ prices typed) :
    x.isFinite = true := by
  obtain ⟨t, -, read⟩ := List.mem_filterMap.mp h
  exact Reading.isFinite_of_ofText? (Option.filter_eq_some_iff.mp read).1

end Extraction

theorem Typed.withinLimits (v : Typed) : (v.params : Parameters Float).WithinLimits where
  conf _ := Extraction.inRange_of_mem_confidences
  fse _ := Extraction.inRange_of_mem_fseValues
  fseHome _ := Extraction.inRange_of_mem_fseValues
  fseAway _ := Extraction.inRange_of_mem_fseValues
  odds x hx := by
    obtain ⟨g, hg, hx⟩ := List.mem_flatten.mp hx
    obtain ⟨numbers, -, rfl⟩ := List.mem_map.mp (List.mem_filter.mp hg).1
    exact ⟨Extraction.isFinite_of_mem_prices hx, Extraction.lt_of_mem_prices hx⟩
  grouped := rfl
  group_ne_nil g hg := by
    have filled := (List.mem_filter.mp hg).2
    rintro rfl
    cases filled
  tys g _ := by cases g <;> decide
  fid _ := Extraction.mem_rungs_of_mem_fidRungs
  mode m _ := by cases m <;> decide

namespace Extraction

/-- Whatever a slip states, the parameters taken out of it are within their limits. -/
theorem withinLimits_ofText (t : Text) : (ofText t : Extraction Float).params.WithinLimits := by
  rw [ofText_eq_typed]
  exact (typed t).1.withinLimits

end Extraction

end Wager
