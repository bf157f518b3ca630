import Wager.Proofs.Scalar.DoubleText

/-!
# Rounding of doubles

Sums and products of doubles from zero upwards are off by at most one unit in the last place: a
bound of the exact result, widened by that unit, bounds the rounded one.
-/

namespace Wager.Double

open Float.Model UnpackedFloat

section Unpacking

def ofUnpacked : UnpackedFloat → Double
  | .finite s m e _ => .finite (s == .negative) m e
  | .zero s => .finite (s == .negative) 0 (-1074)
  | .infinity s => .infinite (s == .negative)
  | .notANumber => .undefined

theorem unpackMantissa_toNat (x : Float) :
    (@unpackMantissa Format.binary64 x.toBits.toBitVec).toNat = x.toBits.toNat % 2 ^ 52 := by
  rw [unpackMantissa_def, BitVec.extractLsb'_toNat, Nat.shiftRight_zero]
  rfl

theorem unpackSign_toNat (x : Float) :
    (@unpackSign Format.binary64 x.toBits.toBitVec).toNat = x.toBits.toNat / 2 ^ 63 := by
  have bound : x.toBits.toNat < 2 ^ 64 := x.toBits.toNat_lt
  rw [unpackSign_def, BitVec.extractLsb'_toNat, Nat.shiftRight_eq_div_pow]
  exact Nat.mod_eq_of_lt (by omega : x.toBits.toNat / 2 ^ 63 < 2)

theorem toNat_implicit_append (v : BitVec 52) : (1#1 ++ v).toNat = 2 ^ 52 + v.toNat := by
  rw [BitVec.toNat_append, ← Nat.shiftLeft_add_eq_or_of_lt v.isLt]
  rfl

theorem ofFloat_eq_ofUnpacked (x : Float) : ofFloat x = ofUnpacked x.toModel.unpack := by
  have mantissa := unpackMantissa_toNat x
  have exponent := unpackExponent_toNat x
  have sign : (Sign.ofBitVec (@unpackSign Format.binary64 x.toBits.toBitVec) == .negative) =
      (x.toBits.toNat / 2 ^ 63 == 1) := by
    rw [← unpackSign_toNat x]
    generalize @unpackSign Format.binary64 x.toBits.toBitVec = v
    revert v
    decide
  have unpacked : x.toModel.unpack = UnpackedFloat.unpack Format.binary64 x.toBits.toBitVec := rfl
  rw [unpacked, UnpackedFloat.unpack]
  simp only [ofFloat, Nat.pow_eq, ← sign, ← mantissa, ← exponent]
  have top (w : BitVec 11) : w.toNat = 2047 ↔ w = -1#11 := by
    rw [← BitVec.toNat_inj]
    rfl
  have bottom (w : BitVec 11) : w.toNat = 0 ↔ w = 0#11 := by
    rw [← BitVec.toNat_inj]
    rfl
  have empty (v : BitVec 52) : v.toNat = 0 ↔ v = 0#52 := by
    rw [← BitVec.toNat_inj]
    rfl
  simp only [beq_iff_eq, top, bottom, empty]
  split
  · split <;> rfl
  · split
    next least =>
      rw [least]
      split
      next none => rw [none]; rfl
      next => rfl
    next => exact congrArg (finite _ · _) (toNat_implicit_append _).symm

theorem inRange_of_unpack {x : Float} {s : Sign} {m : Nat} {e : Int} {positive : 0 < m}
    (h : x.toModel.unpack = .finite s m e positive) : InRange m e := by
  have finite : x.isFinite = true := by
    change x.toModel.unpack.isFinite = true
    rw [h]
    rfl
  obtain ⟨negative, m', e', value, range, -⟩ := ofFloat_of_isFinite finite
  rw [ofFloat_eq_ofUnpacked, h] at value
  injection value with _ mantissas exponents
  rwa [mantissas, exponents]

theorem unpack_pack_zero (s : Sign) : (Float.Model.pack (.zero s)).unpack = .zero s := by
  cases s <;> rfl

theorem pack_finite {s : Sign} {m : Nat} {e : Int} (positive : 0 < m) (high : e ≤ 971) :
    UnpackedFloat.pack Format.binary64 (.finite s m e positive) =
      if m.log2 + 1 = 53 then packComponents Format.binary64 s
        (BitVec.ofNat 11 (e + 1023 + 52).toNat) (BitVec.ofNat 52 m)
      else packComponents Format.binary64 s 0#11 (BitVec.ofNat 52 m) := by
  have fits : ¬2 ^ 11 ≤ (e + 1023 + 52).toNat + 1 := by omega
  exact if_neg fits

theorem unpack_pack_of_normal {s : Sign} {m : Nat} {e : Int} (positive : 0 < m)
    (range : InRange m e) (leading : 2 ^ 52 ≤ m) :
    (Float.Model.pack (.finite s m e positive)).unpack = .finite s m e positive := by
  obtain ⟨short, low, high, -⟩ := range
  have log : m.log2 + 1 = 53 := by
    rw [(Nat.log2_eq_iff positive.ne').mpr ⟨leading, short⟩]
  have exponent : (BitVec.ofNat 11 (e + 1023 + 52).toNat).toNat = (e + 1023 + 52).toNat :=
    Nat.mod_eq_of_lt (by omega)
  have mantissa : (BitVec.ofNat 52 m).toNat = m - 2 ^ 52 := by
    rw [BitVec.toNat_ofNat]
    omega
  have top : BitVec.ofNat 11 (e + 1023 + 52).toNat ≠ -1#11 := by
    intro ones
    have value := congrArg BitVec.toNat ones
    rw [exponent] at value
    change _ = 2047 at value
    omega
  have bottom : BitVec.ofNat 11 (e + 1023 + 52).toNat ≠ 0#11 := by
    intro zeros
    have value := congrArg BitVec.toNat zeros
    rw [exponent] at value
    change _ = 0 at value
    omega
  change UnpackedFloat.unpack Format.binary64 (UnpackedFloat.pack Format.binary64 _) = _
  rw [pack_finite positive high, if_pos log, UnpackedFloat.unpack]
  simp only [unpackMantissa_packComponents, unpackExponent_packComponents,
    unpackSign_packComponents, Sign.ofBitVec_toBitVec, top, bottom, if_false]
  congr 1
  · rw [toNat_implicit_append, mantissa]
    omega
  · rw [exponent]
    change ((e + 1023 + 52).toNat : Int) - (1023 + 52) = e
    omega

theorem unpack_pack_of_subnormal {s : Sign} {m : Nat} (positive : 0 < m) (short : m < 2 ^ 52) :
    (Float.Model.pack (.finite s m (-1074) positive)).unpack = .finite s m (-1074) positive := by
  have log : m.log2 + 1 ≠ 53 := by
    have := (Nat.log2_lt positive.ne').mpr short
    omega
  have mantissa : (BitVec.ofNat 52 m).toNat = m := Nat.mod_eq_of_lt short
  have filled : BitVec.ofNat 52 m ≠ 0#52 := by
    intro zeros
    have value := congrArg BitVec.toNat zeros
    rw [mantissa] at value
    exact positive.ne' value
  change UnpackedFloat.unpack Format.binary64 (UnpackedFloat.pack Format.binary64 _) = _
  rw [pack_finite positive (by norm_num), if_neg log, UnpackedFloat.unpack]
  simp only [unpackMantissa_packComponents, unpackExponent_packComponents,
    unpackSign_packComponents, Sign.ofBitVec_toBitVec, filled, dite_false]
  rw [if_neg (by decide), if_pos trivial]
  congr 1

theorem unpack_pack_finite {s : Sign} {m : Nat} {e : Int} (positive : 0 < m) (range : InRange m e) :
    (Float.Model.pack (.finite s m e positive)).unpack = .finite s m e positive := by
  rcases le_or_gt (2 ^ 52) m with leading | short
  · exact unpack_pack_of_normal positive range leading
  · obtain rfl : e = -1074 := range.normal.resolve_right (not_le.mpr short)
    exact unpack_pack_of_subnormal positive short

end Unpacking

section Rounding

theorem mantissa_shiftRight (em : ExtendedMantissa) (k : Nat) :
    (em >>> k).mantissa = em.mantissa / 2 ^ k := by
  change (k.repeat ExtendedMantissa.shiftRightOne em).mantissa = _
  induction k with
  | zero => simp [Nat.repeat]
  | succ k ih =>
    change (k.repeat ExtendedMantissa.shiftRightOne em).mantissa / 2 = _
    rw [ih, Nat.div_div_eq_div_mul, pow_succ]

theorem roundedMantissa_near (em : ExtendedMantissa) :
    em.mantissa ≤ em.roundedMantissa ∧ em.roundedMantissa ≤ em.mantissa + 1 := by
  obtain ⟨m, round, sticky⟩ := em
  cases round <;> cases sticky <;>
    simp only [ExtendedMantissa.roundedMantissa, ExtendedMantissa.accuracy,
      Accuracy.roundToNearestEven] <;> omega

theorem targetExponent_eq (m : Nat) (e : Int) :
    Format.binary64.targetExponent (totalExponent m e) = max ((m.log2 : Int) + e - 52) (-1074) := by
  simp only [Format.targetExponent, totalExponent, Format.mantissaBits, Format.minExponent]
  norm_num
  omega

theorem shiftToTargetExponent_exact (m : Nat) (e : Int) :
    shiftToTargetExponent Format.binary64 m e .exact =
      ((⟨m, false, false⟩ : ExtendedMantissa) >>> (max ((m.log2 : Int) + e - 52) (-1074) - e).toNat,
        e + (max ((m.log2 : Int) + e - 52) (-1074) - e).toNat) := by
  rw [shiftToTargetExponent, targetExponent_eq]
  rfl

/-- A rounded mantissa fits, or it has become a power of two, of which the last bit is dropped
without loss. -/
theorem shiftToTargetExponent_rounded {r : Nat} {e : Int} (low : -1074 ≤ e) (short : r ≤ 2 ^ 53) :
    let (em, e') := shiftToTargetExponent Format.binary64 r e .exact
    em.mantissa < 2 ^ 53 ∧ (em.mantissa : ℚ) * 2 ^ e' = r * 2 ^ e ∧ e ≤ e' ∧ e' ≤ e + 1 ∧
      (2 ^ 52 ≤ em.mantissa ∨ r < 2 ^ 52 ∧ e' = e) := by
  rw [shiftToTargetExponent_exact]
  rcases short.lt_or_eq with fits | rfl
  · have bits : r.log2 ≤ 52 := by
      rcases Nat.eq_zero_or_pos r with rfl | positive
      · decide
      · exact Nat.le_of_lt_succ ((Nat.log2_lt positive.ne').mpr fits)
    have none : (max ((r.log2 : Int) + e - 52) (-1074) - e).toNat = 0 := by omega
    rw [none]
    dsimp only
    rw [mantissa_shiftRight, pow_zero, Nat.div_one, Nat.cast_zero, add_zero]
    exact ⟨fits, rfl, le_rfl, by omega, (le_or_gt _ r).imp_right fun small => ⟨small, rfl⟩⟩
  · have one : (max (((2 ^ 53).log2 : Int) + e - 52) (-1074) - e).toNat = 1 := by
      rw [Nat.log2_two_pow]
      omega
    rw [one]
    dsimp only
    rw [mantissa_shiftRight]
    refine ⟨by norm_num, ?_, by simp, by simp, .inl (by norm_num)⟩
    rw [Nat.cast_one, zpow_add_one₀ two_ne_zero]
    norm_num
    ring

def AtMost (bound : ℚ) : UnpackedFloat → Prop
  | .finite .positive m e _ => InRange m e ∧ (m : ℚ) * 2 ^ e ≤ bound
  | .zero _ => 0 ≤ bound
  | _ => False

namespace AtMost

variable {a b : ℚ} {f : UnpackedFloat}

theorem zero_or_positive (h : AtMost a f) : (0 ≤ a ∧ ∃ s, f = .zero s) ∨
    ∃ m e, ∃ positive : 0 < m,
      f = .finite .positive m e positive ∧ InRange m e ∧ (m : ℚ) * 2 ^ e ≤ a := by
  cases f with
  | finite s m e positive =>
    cases s with
    | positive => exact .inr ⟨m, e, positive, rfl, h⟩
    | negative => exact h.elim
  | zero s => exact .inl ⟨h, s, rfl⟩
  | infinity s => exact h.elim
  | notANumber => exact h.elim

theorem bound_nonneg (h : AtMost a f) : 0 ≤ a := by
  rcases h.zero_or_positive with ⟨none, -⟩ | ⟨m, e, -, -, -, value⟩
  · exact none
  · exact le_trans (by positivity) value

theorem mono (h : AtMost a f) (le : a ≤ b) : AtMost b f := by
  rcases h.zero_or_positive with ⟨none, s, rfl⟩ | ⟨m, e, positive, rfl, range, value⟩
  · exact none.trans le
  · exact ⟨range, value.trans le⟩

theorem unpack_pack (h : AtMost a f) : (Float.Model.pack f).unpack = f := by
  rcases h.zero_or_positive with ⟨-, s, rfl⟩ | ⟨m, e, positive, rfl, range, -⟩
  · exact unpack_pack_zero s
  · exact unpack_pack_finite positive range

end AtMost

variable {m : Nat} {e N : Int} {q : ℚ}

theorem log2_add_le (positive : 0 < m) (value : (m : ℚ) * 2 ^ e ≤ 2 ^ N) :
    (m.log2 : Int) + e ≤ N := by
  have leading : ((2 : ℚ) ^ m.log2) ≤ m := by
    exact_mod_cast Nat.log2_self_le positive.ne'
  have power : (2 : ℚ) ^ ((m.log2 : Int) + e) ≤ 2 ^ N := by
    rw [zpow_add₀ two_ne_zero, zpow_natCast]
    exact (mul_le_mul_of_nonneg_right leading (by positivity)).trans value
  exact (zpow_le_zpow_iff_right₀ one_lt_two).mp power

/-- A mantissa that is shifted and rounded has gained at most one unit of its new exponent. -/
theorem roundedMantissa_shiftRight_le (m k : Nat) (e : Int) :
    (((⟨m, false, false⟩ : ExtendedMantissa) >>> k).roundedMantissa : ℚ) * 2 ^ (e + k) ≤
      m * 2 ^ e + 2 ^ (e + k) := by
  have near := (roundedMantissa_near ((⟨m, false, false⟩ : ExtendedMantissa) >>> k)).2
  rw [mantissa_shiftRight] at near
  generalize ExtendedMantissa.roundedMantissa _ = r at near ⊢
  have up : (r : ℚ) ≤ (m / 2 ^ k : Nat) + 1 := by exact_mod_cast near
  have kept : ((m / 2 ^ k : Nat) : ℚ) * 2 ^ (e + k) ≤ m * 2 ^ e := by
    have whole : ((m / 2 ^ k : Nat) : ℚ) * 2 ^ k ≤ m := by
      exact_mod_cast Nat.div_mul_le_self m (2 ^ k)
    rw [zpow_add₀ two_ne_zero, zpow_natCast, mul_comm ((2 : ℚ) ^ e), ← mul_assoc]
    exact mul_le_mul_of_nonneg_right whole (by positivity)
  calc (r : ℚ) * 2 ^ (e + k) ≤ ((m / 2 ^ k : Nat) + 1) * 2 ^ (e + k) :=
        mul_le_mul_of_nonneg_right up (by positivity)
    _ = ((m / 2 ^ k : Nat) : ℚ) * 2 ^ (e + k) + 2 ^ (e + k) := by ring
    _ ≤ m * 2 ^ e + 2 ^ (e + k) := by linarith

theorem atMost_roundWithAccuracy (positive : 0 < m) (fits : 2 ^ 52 ≤ m ∨ e ≤ -1074)
    (value : (m : ℚ) * 2 ^ e ≤ q) (bounded : q ≤ 2 ^ N) (low : -1022 ≤ N) (high : N ≤ 1022) :
    AtMost (q + 2 ^ (N - 52)) (roundWithAccuracy Format.binary64 .positive m e .exact) := by
  have bits := log2_add_le positive (value.trans bounded)
  have full (h : 2 ^ 52 ≤ m) : 52 ≤ m.log2 := (Nat.le_log2 positive.ne').mpr h
  rw [roundWithAccuracy, shiftToTargetExponent_exact]
  -- The exponent of the result, and by how many bits the mantissa is shifted for it.
  generalize ht : max ((m.log2 : Int) + e - 52) (-1074) = t
  have aim : (m.log2 : Int) + e - 52 ≤ t ∧ -1074 ≤ t ∧ t ≤ N - 52 ∧ e ≤ t ∧
      ((m.log2 : Int) + e - 52 = t ∨ t = -1074) := by
    omega
  generalize hk : (t - e).toNat = k
  have shift : e + (k : Int) = t := by omega
  have gained := roundedMantissa_shiftRight_le m k e
  have near := roundedMantissa_near ((⟨m, false, false⟩ : ExtendedMantissa) >>> k)
  rw [mantissa_shiftRight] at near
  rw [shift] at gained
  dsimp only at near ⊢
  generalize ExtendedMantissa.roundedMantissa _ = r at gained near ⊢
  have short : m / 2 ^ k < 2 ^ 53 := by
    rw [Nat.div_lt_iff_lt_mul (by positivity), ← pow_add]
    exact Nat.lt_log2_self.trans_le (Nat.pow_le_pow_right two_pos (by omega))
  have normal : t = -1074 ∨ 2 ^ 52 ≤ r := by
    rcases aim.2.2.2.2 with exact | least
    · right
      have leading : 2 ^ 52 ≤ m / 2 ^ k := by
        rw [Nat.le_div_iff_mul_le (by positivity), ← pow_add]
        exact (Nat.pow_le_pow_right two_pos (by omega)).trans (Nat.log2_self_le positive.ne')
      exact leading.trans near.1
    · exact .inl least
  have unit : (2 : ℚ) ^ t ≤ 2 ^ (N - 52) := zpow_le_zpow_right₀ one_le_two aim.2.2.1
  have rounded := gained.trans (add_le_add value unit)
  have settled := shiftToTargetExponent_rounded aim.2.1 (by omega : r ≤ 2 ^ 53)
  rw [shift]
  generalize shiftToTargetExponent Format.binary64 r t .exact = result at settled ⊢
  obtain ⟨em, e'⟩ := result
  obtain ⟨fits', same, up, most, leading⟩ := settled
  dsimp only
  split
  next none => exact le_trans (by positivity) rounded
  next some =>
    refine ⟨⟨fits', by omega, by omega, ?_⟩, same.trans_le rounded⟩
    omega

theorem decreaseExponent_value (m : Nat) (e t : Int) :
    ((decreaseExponent m e t).1 : ℚ) * 2 ^ (decreaseExponent m e t).2 = m * 2 ^ e := by
  have parts : (2 : ℚ) ^ e = 2 ^ (e - t).toNat * 2 ^ (e - (e - t).toNat) := by
    rw [← zpow_natCast, ← zpow_add₀ two_ne_zero]
    congr 1
    omega
  rw [decreaseExponent, Nat.shiftLeft_eq, parts]
  push_cast
  ring

theorem decreaseExponent_of_le (m : Nat) {e t : Int} (below : t ≤ e) :
    (decreaseExponent m e t).2 = t := by
  rw [decreaseExponent]
  omega

theorem atMost_round (positive : 0 < m) (value : (m : ℚ) * 2 ^ e ≤ q) (bounded : q ≤ 2 ^ N)
    (low : -1022 ≤ N) (high : N ≤ 1022) :
    AtMost (q + 2 ^ (N - 52)) (round Format.binary64 .positive m e) := by
  rw [UnpackedFloat.round, targetExponent_eq]
  generalize ht : max ((m.log2 : Int) + e - 52) (-1074) = t
  have filled : 0 < (decreaseExponent m e t).1 := by
    rw [decreaseExponent, Nat.shiftLeft_eq]
    positivity
  refine atMost_roundWithAccuracy filled ?_ ((decreaseExponent_value m e t).trans_le value) bounded
    low high
  rw [Nat.shiftLeft_eq]
  generalize hk : (e - t).toNat = k
  by_cases bits : 52 ≤ m.log2 + k
  · left
    calc 2 ^ 52 ≤ 2 ^ (m.log2 + k) := Nat.pow_le_pow_right two_pos bits
      _ = 2 ^ m.log2 * 2 ^ k := pow_add 2 _ _
      _ ≤ m * 2 ^ k := Nat.mul_le_mul_right _ (Nat.log2_self_le positive.ne')
  · right
    omega

end Rounding

section Operations

def UpTo (bound : ℚ) (x : Float) : Prop := AtMost bound x.toModel.unpack

variable {a b : ℚ} {x y : Float} {N : Int}

theorem atMost_mul {f g : UnpackedFloat} (hf : AtMost a f) (hg : AtMost b g)
    (bounded : a * b ≤ 2 ^ N) (low : -1022 ≤ N) (high : N ≤ 1022) :
    AtMost (a * b + 2 ^ (N - 52)) (UnpackedFloat.mul Format.binary64 f g) := by
  have ha := hf.bound_nonneg
  have hb := hg.bound_nonneg
  have none : 0 ≤ a * b + 2 ^ (N - 52) := by positivity
  rcases hf.zero_or_positive with ⟨-, s, rfl⟩ | ⟨m, e, first, rfl, range, hm⟩
  · rcases hg.zero_or_positive with ⟨-, t, rfl⟩ | ⟨n, f, second, rfl, -, -⟩
    · exact none
    · exact none
  rcases hg.zero_or_positive with ⟨-, t, rfl⟩ | ⟨n, f, second, rfl, range', hn⟩
  · exact none
  refine atMost_roundWithAccuracy (Nat.mul_pos first second) ?_ ?_ bounded low high
  · rcases range.normal with rfl | leading
    · rcases range'.normal with rfl | leading
      · exact .inr (by norm_num)
      · exact .inl (leading.trans (Nat.le_mul_of_pos_left n first))
    · exact .inl (leading.trans (Nat.le_mul_of_pos_right m second))
  · calc ((m * n : Nat) : ℚ) * 2 ^ (e + f) = (m * 2 ^ e) * (n * 2 ^ f) := by
          rw [zpow_add₀ two_ne_zero]
          push_cast
          ring
      _ ≤ a * b := mul_le_mul hm hn (by positivity) ha

theorem atMost_add {f g : UnpackedFloat} (hf : AtMost a f) (hg : AtMost b g)
    (bounded : a + b ≤ 2 ^ N) (low : -1022 ≤ N) (high : N ≤ 1022) :
    AtMost (a + b + 2 ^ (N - 52)) (UnpackedFloat.add Format.binary64 f g) := by
  have ha := hf.bound_nonneg
  have hb := hg.bound_nonneg
  have unit : (0 : ℚ) ≤ 2 ^ (N - 52) := by positivity
  rcases hf.zero_or_positive with ⟨-, s, rfl⟩ | ⟨m, e, first, rfl, -, hm⟩
  · rcases hg.zero_or_positive with ⟨-, t, rfl⟩ | ⟨n, f, second, rfl, -, -⟩
    · cases s <;> cases t <;> exact (by positivity : 0 ≤ a + b + 2 ^ (N - 52))
    · exact hg.mono (by linarith)
  rcases hg.zero_or_positive with ⟨-, t, rfl⟩ | ⟨n, f, second, rfl, -, hn⟩
  · exact hf.mono (by linarith)
  have left := decreaseExponent_value m e (min e f)
  have right := decreaseExponent_value n f (min e f)
  rw [decreaseExponent_of_le m (min_le_left e f)] at left
  rw [decreaseExponent_of_le n (min_le_right e f)] at right
  have filled : 0 < (decreaseExponent m e (min e f)).1 := by
    rw [decreaseExponent, Nat.shiftLeft_eq]
    positivity
  change AtMost _ (normalize Format.binary64
    (((decreaseExponent m e (min e f)).1 : Int) + ((decreaseExponent n f (min e f)).1 : Int))
      (min e f) .positive)
  generalize (decreaseExponent m e (min e f)).1 = m' at left filled ⊢
  generalize (decreaseExponent n f (min e f)).1 = n' at right ⊢
  have sum : compare ((m' : Int) + n') 0 = .gt := compare_gt_iff_gt.mpr (by omega)
  rw [UnpackedFloat.normalize, sum]
  refine atMost_round (by omega) ?_ bounded low high
  calc (((m' + n' : Int).toNat : Nat) : ℚ) * 2 ^ (min e f)
      = m' * 2 ^ min e f + n' * 2 ^ min e f := by
        rw [← Nat.cast_add, Int.toNat_natCast]
        push_cast
        ring
    _ = m * 2 ^ e + n * 2 ^ f := by rw [left, right]
    _ ≤ a + b := add_le_add hm hn

theorem UpTo.mul (hx : UpTo a x) (hy : UpTo b y) (bounded : a * b ≤ 2 ^ N) (low : -1022 ≤ N)
    (high : N ≤ 1022) : UpTo (a * b + 2 ^ (N - 52)) (x * y) := by
  have product := atMost_mul hx hy bounded low high
  change AtMost _ (Float.Model.pack _).unpack
  rwa [product.unpack_pack]

theorem UpTo.add (hx : UpTo a x) (hy : UpTo b y) (bounded : a + b ≤ 2 ^ N) (low : -1022 ≤ N)
    (high : N ≤ 1022) : UpTo (a + b + 2 ^ (N - 52)) (x + y) := by
  have sum := atMost_add hx hy bounded low high
  change AtMost _ (Float.Model.pack _).unpack
  rwa [sum.unpack_pack]

end Operations

section Comparisons

variable {x n : Float}

/-- The values of two mantissas are in the order of their exponents, then of the mantissas. -/
theorem value_le_of_fields {m k : Nat} {e f : Int} (range : InRange m e) (range' : InRange k f)
    (order : (compare f e).then (compare k m) ≠ .lt) : (m : ℚ) * 2 ^ e ≤ k * 2 ^ f := by
  rw [Ne, Ordering.then_eq_lt, compare_lt_iff_lt, compare_lt_iff_lt, compare_eq_iff_eq] at order
  -- With a smaller exponent even a mantissa of all bits is below a normal one.
  rcases Int.lt_trichotomy e f with finer | rfl | coarser
  · have leading : 2 ^ 52 ≤ k := range'.normal.resolve_left fun least => by
      have low := range.low
      omega
    calc (m : ℚ) * 2 ^ e ≤ 2 ^ 53 * 2 ^ e :=
          mul_le_mul_of_nonneg_right (by exact_mod_cast range.mantissa.le) (by positivity)
      _ = 2 ^ 52 * 2 ^ (e + 1) := by
        rw [zpow_add_one₀ two_ne_zero]
        ring
      _ ≤ k * 2 ^ f := mul_le_mul (by exact_mod_cast leading)
        (zpow_le_zpow_right₀ one_le_two finer) (by positivity) (by positivity)
  · have below : m ≤ k := not_lt.mp fun more => order (.inr ⟨rfl, more⟩)
    exact mul_le_mul_of_nonneg_right (by exact_mod_cast below) (by positivity)
  · exact absurd (.inl coarser) order

theorem upTo_of_not_lt {k : Nat} {f : Int} (positive : 0 < k) (finite : x.isFinite = true)
    (nonneg : ¬x < 0.0) (top : ¬n < x) (hn : n.toModel.unpack = .finite .positive k f positive) :
    UpTo (k * 2 ^ f) x := by
  have real : x.toModel.unpack.isFinite = true := finite
  have above : x.toModel.unpack.lt (.zero .positive) = false := Bool.eq_false_iff.mpr
    fun below => nonneg (decide_eq_true_iff.mpr below)
  have under : (UnpackedFloat.finite .positive k f positive).lt x.toModel.unpack = false := by
    rw [← hn]
    exact Bool.eq_false_iff.mpr fun below => top (decide_eq_true_iff.mpr below)
  unfold UpTo
  cases h : x.toModel.unpack with
  | infinity s =>
    rw [h] at real
    cases real
  | notANumber =>
    rw [h] at real
    cases real
  | zero s => exact (by positivity : (0 : ℚ) ≤ k * 2 ^ f)
  | finite s m e filled =>
    rw [h] at above under
    cases s with
    | negative => cases above
    | positive =>
      have range := inRange_of_unpack h
      refine ⟨range, value_le_of_fields range (inRange_of_unpack hn) fun less => ?_⟩
      rw [UnpackedFloat.lt, UnpackedFloat.compare, less] at under
      cases under

theorem floor_finite (negative : Bool) (m : Nat) (e : Int) :
    (finite negative m e).floor = ⌊(signed negative m : ℚ) * 2 ^ e⌋ := by
  have parts : (signed negative m : ℚ) * 2 ^ e =
      (signed negative (m * 2 ^ e.toNat) : ℚ) / (2 ^ (-e).toNat : Nat) := by
    have scaled : (signed negative (m * 2 ^ e.toNat) : ℚ) = signed negative m * 2 ^ e.toNat := by
      cases negative <;> simp [signed]
    rw [scaled, eq_div_iff (by positivity), mul_assoc]
    congr 1
    push_cast
    rw [← zpow_natCast, ← zpow_natCast, ← zpow_add₀ two_ne_zero]
    congr 1
    omega
  rw [parts, Rat.floor_intCast_div_natCast]
  rfl

theorem UpTo.floor {bound : ℚ} (h : UpTo bound x) :
    0 ≤ Scalar.floor x ∧ Scalar.floor x ≤ ⌊bound⌋ := by
  change 0 ≤ (ofFloat x).floor ∧ (ofFloat x).floor ≤ ⌊bound⌋
  rw [ofFloat_eq_ofUnpacked]
  rcases AtMost.zero_or_positive h with ⟨none, s, zero⟩ | ⟨m, e, _, positive, -, value⟩
  · have signed_zero : signed (s == .negative) 0 = 0 := by cases s <;> rfl
    rw [zero, ofUnpacked, floor_finite, signed_zero, Int.cast_zero, zero_mul, Int.floor_zero]
    exact ⟨le_rfl, Int.floor_nonneg.mpr none⟩
  · have unsigned : (signed (Sign.positive == .negative) m : ℚ) = m := rfl
    rw [positive, ofUnpacked, floor_finite, unsigned]
    exact ⟨Int.floor_nonneg.mpr (by positivity), Int.floor_le_floor value⟩

end Comparisons

end Wager.Double
