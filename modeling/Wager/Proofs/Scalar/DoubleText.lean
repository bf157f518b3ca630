import Wager.Proofs.Decimal.Shortest
import Wager.Proofs.Decimal.Written
import Wager.Proofs.Scalar.Double

/-!
# The texts of doubles

The shortest text of a finite double names a number that rounds to that double and to no other, so
different doubles have different texts.
-/

namespace Wager

namespace Double

open Float.Model UnpackedFloat

/-- The mantissas and exponents of finite doubles: only with the least exponent is the leading bit
missing. -/
structure InRange (m : Nat) (e : Int) : Prop where
  mantissa : m < 2 ^ 53
  low : -1074 ≤ e
  high : e ≤ 971
  normal : e = -1074 ∨ 2 ^ 52 ≤ m

section Bits

variable {x y : Float}

theorem unpackExponent_toNat (x : Float) :
    (@unpackExponent Format.binary64 x.toBits.toBitVec).toNat =
      x.toBits.toNat / 2 ^ 52 % 2 ^ 11 := by
  rw [unpackExponent_def, BitVec.extractLsb'_toNat, Nat.shiftRight_eq_div_pow]
  rfl

theorem exponent_ne_of_isFinite (h : x.isFinite = true) :
    x.toBits.toNat / 2 ^ 52 % 2 ^ 11 ≠ 2047 := by
  intro all
  have ones : @unpackExponent Format.binary64 x.toBits.toBitVec = -1#_ := by
    apply BitVec.eq_of_toNat_eq
    rw [unpackExponent_toNat, all]
    rfl
  have unpacked : (UnpackedFloat.unpack Format.binary64 x.toBits.toBitVec).isFinite = true := h
  rw [UnpackedFloat.unpack] at unpacked
  dsimp only at unpacked
  rw [if_pos ones] at unpacked
  split at unpacked <;> cases unpacked

/-- The bits of the double with this sign, mantissa and exponent. -/
def bits (negative : Bool) (m : Nat) (e : Int) : Nat :=
  (if negative then 2 ^ 63 else 0) +
    if m < 2 ^ 52 then m else m - 2 ^ 52 + 2 ^ 52 * (e + 1075).toNat

/-- A finite double is a signed mantissa in range times a power of two, from which its bits can be
told. -/
theorem ofFloat_of_isFinite (h : x.isFinite = true) : ∃ negative m e,
    ofFloat x = .finite negative m e ∧ InRange m e ∧ x.toBits.toNat = bits negative m e := by
  have other := exponent_ne_of_isFinite h
  have bound : x.toBits.toNat < 2 ^ 64 := x.toBits.toNat_lt
  unfold ofFloat
  simp only [Nat.pow_eq]
  generalize x.toBits.toNat = n at *
  -- The three fields of the bits, of which all that follows is linear.
  have parts : n = 2 ^ 63 * (n / 2 ^ 63) + (2 ^ 52 * (n / 2 ^ 52 % 2 ^ 11) + n % 2 ^ 52) := by
    omega
  have one : n / 2 ^ 63 = 0 ∨ n / 2 ^ 63 = 1 := by omega
  have small : n % 2 ^ 52 < 2 ^ 52 := Nat.mod_lt _ (by norm_num)
  have short : n / 2 ^ 52 % 2 ^ 11 < 2 ^ 11 := Nat.mod_lt _ (by norm_num)
  generalize n / 2 ^ 63 = sign at *
  generalize n / 2 ^ 52 % 2 ^ 11 = biased at *
  generalize n % 2 ^ 52 = fraction at *
  have signed : 2 ^ 63 * sign = if sign == 1 then 2 ^ 63 else 0 := by
    rcases one with rfl | rfl <;> rfl
  rw [if_neg (by simpa using other)]
  split
  next subnormal =>
    rw [beq_iff_eq] at subnormal
    refine ⟨_, _, _, rfl, ⟨by omega, by omega, by omega, .inl rfl⟩, ?_⟩
    rw [bits, ← signed, if_pos small]
    omega
  next normal =>
    rw [beq_iff_eq] at normal
    refine ⟨_, _, _, rfl, ⟨by omega, by omega, by omega, .inr (by omega)⟩, ?_⟩
    rw [bits, ← signed, if_neg (by omega)]
    omega

theorem eq_of_ofFloat_eq (hx : x.isFinite = true) (hy : y.isFinite = true)
    (same : ofFloat x = ofFloat y) : x = y := by
  obtain ⟨s, m, e, ex, -, bitsx⟩ := ofFloat_of_isFinite hx
  obtain ⟨t, n, f, ey, -, bitsy⟩ := ofFloat_of_isFinite hy
  rw [ex, ey] at same
  injection same with signs mantissas exponents
  subst signs mantissas exponents
  exact Float.toBits_inj.mp (UInt64.toNat_inj.mp (bitsx.trans bitsy.symm))

end Bits

section Interval

variable {m n : Nat} {e f : Int}

theorem low_interval (m : Nat) (e : Int) :
    4 * m - 2 ≤ (interval m e).low ∧ (interval m e).low ≤ 4 * m - 1 ∧
      (-1074 < e → 2 ^ 52 ≤ m → 2 ^ 54 - 1 ≤ (interval m e).low) := by
  simp only [interval, Nat.pow_eq]
  split
  next => omega
  next regular =>
    simp only [Bool.and_eq_true, beq_iff_eq, decide_eq_true_eq, not_and] at regular
    omega

theorem even_of_closed (h : (interval m e).closed = true) : m % 2 = 0 := by
  simpa [interval] using h

/-- Of two doubles' rounding intervals, the one of the lower double ends where that of the higher
one begins or earlier, and the end they may share is in one of them at most. -/
private theorem interval_apart (hm : InRange m e) (hn : InRange n f)
    (above : e < f ∨ e = f ∧ m < n) {q : ℚ} (lower : (interval m e).Contains q)
    (higher : (interval n f).Contains q) : False := by
  obtain ⟨most, -, carried⟩ := low_interval n f
  have unit : (0 : ℚ) < 2 ^ (e - 2) := by
    positivity
  have top : q ≤ ((4 * m + 2 : Nat) : ℚ) * 2 ^ (e - 2) := lower.le_high
  have bottom : ((interval n f).low : ℚ) * 2 ^ (f - 2) ≤ q := higher.low_le
  have even_m (reached : ((4 * m + 2 : Nat) : ℚ) * 2 ^ (e - 2) ≤ q) : m % 2 = 0 :=
    even_of_closed (lower.closed (.inr (le_antisymm top reached)))
  rcases above with finer | ⟨rfl, less⟩
  · -- The unit of the higher double is at least twice as large, and its leading bit is set.
    have coarse : 2 * (2 : ℚ) ^ (e - 2) ≤ 2 ^ (f - 2) := by
      rw [mul_comm, ← zpow_add_one₀ two_ne_zero]
      exact zpow_le_zpow_right₀ (by norm_num) (by omega)
    have doubled : ((2 * (interval n f).low : Nat) : ℚ) * 2 ^ (e - 2) ≤ q := by
      have scaled := mul_le_mul_of_nonneg_left coarse ((interval n f).low.cast_nonneg (α := ℚ))
      push_cast
      linarith
    have order : 2 * (interval n f).low ≤ 4 * m + 2 := by
      exact_mod_cast le_of_mul_le_mul_right (doubled.trans top) unit
    have leading : 2 ^ 52 ≤ n := hn.normal.resolve_left (by have := hm.low; omega)
    have high := carried (by have := hm.low; omega) leading
    have range := hm.mantissa
    have reached : 2 * (interval n f).low = 4 * m + 2 := by
      omega
    have even := even_m (reached ▸ doubled)
    omega
  · have order : (interval n e).low ≤ 4 * m + 2 := by
      exact_mod_cast le_of_mul_le_mul_right (bottom.trans top) unit
    have reached : (interval n e).low = 4 * m + 2 := by
      omega
    rw [reached] at bottom
    have even := even_m bottom
    have shared : q = (interval n e).point (interval n e).low := by
      rw [reached]
      exact le_antisymm top bottom
    have even_n := even_of_closed (higher.closed (.inl shared))
    omega

theorem eq_of_contains (hm : InRange m e) (hn : InRange n f) {q : ℚ}
    (inm : (interval m e).Contains q) (inn : (interval n f).Contains q) : m = n ∧ e = f := by
  by_contra other
  have order : (e < f ∨ e = f ∧ m < n) ∨ (f < e ∨ f = e ∧ n < m) := by
    omega
  rcases order with above | above
  · exact interval_apart hm hn above inm inn
  · exact interval_apart hn hm above inn inm

/-- Powers of ten beside powers of two: `10 ^ 3 < 2 ^ 10` upwards and `2 ^ 93 < 10 ^ 28`
downwards. -/
theorem ten_zpow_lt_two_zpow {p z : Int} (up : 0 ≤ p → 10 * p < 3 * z)
    (down : p ≤ 0 → 93 * p < 28 * z) : (10 : ℚ) ^ p < 2 ^ z := by
  have two : (0 : ℚ) ≤ 2 ^ z := by
    positivity
  have swap (a : ℚ) (n : Nat) (z : Int) : (a ^ z) ^ n = (a ^ n) ^ z := by
    rw [← zpow_natCast, ← zpow_natCast, zpow_comm]
  rcases le_total 0 p with nonneg | nonpos
  · apply lt_of_pow_lt_pow_left₀ 3 two
    calc ((10 : ℚ) ^ p) ^ 3 = (10 ^ 3) ^ p := swap 10 3 p
      _ ≤ (2 ^ 10) ^ p := zpow_le_zpow_left₀ nonneg (by norm_num) (by norm_num)
      _ = 2 ^ (10 * p) := by rw [zpow_mul]; norm_cast
      _ < 2 ^ (3 * z) := zpow_lt_zpow_right₀ (by norm_num) (up nonneg)
      _ = (2 ^ z) ^ 3 := by rw [swap, zpow_mul]; norm_cast
  · obtain ⟨n, rfl⟩ := Int.exists_eq_neg_ofNat nonpos
    have powers : ((2 : ℚ) ^ 93) ^ n ≤ (10 ^ 28) ^ n :=
      pow_le_pow_left₀ (by norm_num) (by norm_num) n
    apply lt_of_pow_lt_pow_left₀ 28 two
    calc ((10 : ℚ) ^ (-(n : Int))) ^ 28 = (10 ^ 28) ^ (-(n : Int)) := swap 10 28 _
      _ ≤ (2 ^ 93) ^ (-(n : Int)) := by
        rw [zpow_neg, zpow_neg, zpow_natCast, zpow_natCast]
        exact inv_anti₀ (by positivity) powers
      _ = 2 ^ (93 * -(n : Int)) := by rw [zpow_mul]; norm_cast
      _ < 2 ^ (28 * z) := zpow_lt_zpow_right₀ (by norm_num) (down nonpos)
      _ = (2 ^ z) ^ 28 := by rw [swap, zpow_mul]; norm_cast

theorem fine_grid (positive : 0 < m) (range : InRange m e) :
    (10 : ℚ) ^ ((interval m e).startPower - (23 : Nat)) < 2 ^ (e - 1) := by
  have bits : Nat.log2 (4 * m) < 55 := by
    have range := range.mantissa
    rw [Nat.log2_lt (by omega)]
    omega
  have low := range.low
  have high := range.high
  have start : (interval m e).startPower =
      ((Nat.log2 (4 * m) : Int) + 1 + (e - 2)) * 30103 / 100000 + 1 := rfl
  apply ten_zpow_lt_two_zpow
  · intro _
    omega
  · intro _
    omega

theorem contains_shortest (positive : 0 < m) (range : InRange m e) :
    (interval m e).Contains
      ((interval m e).shortest.1 * 10 ^ (interval m e).shortest.2) := by
  have fine := fine_grid positive range
  obtain ⟨-, least, -⟩ := low_interval m e
  have unit : (2 : ℚ) ^ (e - 1) = 2 * 2 ^ (e - 2) := by
    rw [mul_comm, ← zpow_add_one₀ two_ne_zero]
    congr 1
    omega
  have step : (((interval m e).low : ℚ) + 1) * 2 ^ (e - 2) ≤ (4 * m : Nat) * 2 ^ (e - 2) := by
    apply mul_le_mul_of_nonneg_right _ (by positivity)
    exact_mod_cast (by omega : (interval m e).low + 1 ≤ 4 * m)
  have value : (interval m e).point (interval m e).value = (4 * m : Nat) * 2 ^ (e - 2) := rfl
  have high : (interval m e).point (interval m e).high = (4 * m + 2 : Nat) * 2 ^ (e - 2) := rfl
  have low : (interval m e).point (interval m e).low = (interval m e).low * 2 ^ (e - 2) := rfl
  have above : ((4 * m + 2 : Nat) : ℚ) * 2 ^ (e - 2) =
      (4 * m : Nat) * 2 ^ (e - 2) + 2 * 2 ^ (e - 2) := by
    push_cast
    ring
  rw [unit] at fine
  have half : (10 : ℚ) ^ ((interval m e).startPower - (23 : Nat)) / 2 < 2 ^ (e - 2) := by
    rw [div_lt_iff₀' two_pos]
    exact fine
  apply (interval m e).contains_search
  refine ⟨23, by norm_num, (interval m e).nearest?_isSome ?_ ?_⟩
  · rw [value, low]
    rw [add_one_mul] at step
    exact (add_lt_add_right half _).trans_le step
  · rw [value, high, above]
    exact add_lt_add_right (half.trans (lt_mul_of_one_lt_left (by positivity) one_lt_two)) _

end Interval

section Text

open Decimal

variable {m n : Nat} {e f : Int}

def magnitude (m : Nat) (e : Int) : Text :=
  if m == 0 then "0.0".toList
  else shortestText (interval m e).shortest.1 (interval m e).shortest.2

theorem text_finite (negative : Bool) (m : Nat) (e : Int) : text (.finite negative m e) =
    if negative then '-' :: magnitude m e else magnitude m e := rfl

theorem magnitude_zero (e : Int) : magnitude 0 e = "0.0".toList := rfl

theorem magnitude_of_pos (positive : 0 < m) : magnitude m e =
    shortestText (interval m e).shortest.1 (interval m e).shortest.2 :=
  if_neg (by simpa using positive.ne')

theorem shortest_pos (positive : 0 < m) (range : InRange m e) :
    0 < (interval m e).shortest.1 := by
  have held := (contains_shortest positive range).low_le
  by_contra none
  have zero : (interval m e).shortest.1 = 0 := by omega
  have least := (low_interval m e).1
  have filled : (0 : ℚ) < (interval m e).low := by
    exact_mod_cast (by omega : 0 < (interval m e).low)
  rw [zero, Nat.cast_zero, zero_mul] at held
  exact absurd held (not_le.mpr (mul_pos filled (by positivity)))

theorem ofText?_magnitude (range : InRange m e) : ∃ q : ℚ,
    Scalar.ofText? (magnitude m e) = some q ∧
      (m = 0 → q = 0) ∧ (0 < m → 0 < q ∧ (interval m e).Contains q) := by
  rcases Nat.eq_zero_or_pos m with rfl | positive
  · refine ⟨0, ?_, fun _ => rfl, fun h => absurd h (lt_irrefl 0)⟩
    have zero : ∀ c ∈ ['0'], c.isDigit = true := List.forall_mem_singleton.mpr rfl
    have read := ofText?_point zero zero (by decide) isExponent_nil
    rwa [show Nat.ofDigitChars 10 (['0'] ++ ['0']) 0 = 0 from rfl, Nat.cast_zero, zero_mul] at read
  · have digits := shortest_pos positive range
    refine ⟨_, ?_, fun zero => absurd zero positive.ne',
      fun _ => ⟨?_, contains_shortest positive range⟩⟩
    · rw [magnitude_of_pos positive]
      exact ofText?_shortestText digits _
    · have above : (0 : ℚ) < (interval m e).shortest.1 := by
        exact_mod_cast digits
      positivity

theorem head_magnitude (range : InRange m e) : ∀ c ∈ (magnitude m e).head?, c.isDigit = true := by
  rcases Nat.eq_zero_or_pos m with rfl | positive
  · rintro c ⟨⟩
    rfl
  · rw [magnitude_of_pos positive]
    exact head_shortestText (shortest_pos positive range) _

theorem magnitude_injective (hm : InRange m e) (hn : InRange n f)
    (same : magnitude m e = magnitude n f) : m = n ∧ e = f := by
  obtain ⟨q, readm, zerom, posm⟩ := ofText?_magnitude hm
  obtain ⟨r, readn, zeron, posn⟩ := ofText?_magnitude hn
  rw [same, readn] at readm
  obtain rfl := Option.some.inj readm
  rcases Nat.eq_zero_or_pos m with rfl | pm
  · rcases Nat.eq_zero_or_pos n with rfl | pn
    · have low := hm.normal
      have low' := hn.normal
      omega
    · exact absurd (zerom rfl) (posn pn).1.ne'
  · rcases Nat.eq_zero_or_pos n with rfl | pn
    · exact absurd (zeron rfl) (posm pm).1.ne'
    · exact eq_of_contains hm hn (posm pm).2 (posn pn).2

theorem text_injective {x y : Float} (hx : x.isFinite = true) (hy : y.isFinite = true)
    (same : Scalar.text x = Scalar.text y) : x = y := by
  obtain ⟨s, m, e, ex, rangex, -⟩ := ofFloat_of_isFinite hx
  obtain ⟨t, n, f, ey, rangey, -⟩ := ofFloat_of_isFinite hy
  change (ofFloat x).text = (ofFloat y).text at same
  apply eq_of_ofFloat_eq hx hy
  have unsigned {m : Nat} {e : Int} (range : InRange m e) (rest : Wager.Text) :
      magnitude m e ≠ '-' :: rest := by
    intro marked
    have digit := head_magnitude range '-' (by simp [marked])
    cases digit
  rw [ex, ey, text_finite, text_finite] at same
  rw [ex, ey]
  cases s <;> cases t
  · obtain ⟨rfl, rfl⟩ := magnitude_injective rangex rangey same
    rfl
  · exact absurd same (unsigned rangex _)
  · exact absurd same.symm (unsigned rangey _)
  · obtain ⟨rfl, rfl⟩ := magnitude_injective rangex rangey (List.cons.inj same).2
    rfl

theorem isNumeric_magnitude (m : Nat) (e : Int) : IsNumeric (magnitude m e) ∧
    ('.' ∈ magnitude m e ∨ 'e' ∈ magnitude m e) := by
  rcases Nat.eq_zero_or_pos m with rfl | positive
  · have zero : ∀ c ∈ ['0'], c.isDigit = true := List.forall_mem_singleton.mpr rfl
    constructor
    · exact (isNumeric_of_digits zero).append (.cons (by decide) (isNumeric_of_digits zero))
    · rw [magnitude_zero]
      decide
  · rw [magnitude_of_pos positive]
    exact ⟨isNumeric_shortestText _ _, mark_mem_shortestText _ _⟩

/-- The text of a finite double has a point or an exponent in it, which no integer has. -/
theorem isNumeric_text {x : Float} (h : x.isFinite = true) : IsNumeric (Scalar.text x) ∧
    ('.' ∈ Scalar.text x ∨ 'e' ∈ Scalar.text x) := by
  obtain ⟨negative, m, e, parts, -⟩ := ofFloat_of_isFinite h
  obtain ⟨numeric, mark⟩ := isNumeric_magnitude m e
  change IsNumeric (ofFloat x).text ∧ ('.' ∈ (ofFloat x).text ∨ 'e' ∈ (ofFloat x).text)
  rw [parts, text_finite]
  split
  · exact ⟨.cons (by decide) numeric, mark.imp (List.mem_cons_of_mem _) (List.mem_cons_of_mem _)⟩
  · exact ⟨numeric, mark⟩

end Text

end Double

end Wager
