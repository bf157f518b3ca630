import Wager.Decimal.Shortest
import Wager.Proofs.Decimal.Fixed
import Wager.Proofs.Scalar.Rational
import Wager.Proofs.Text.Spacing

/-!
# Written decimals

A decimal is written positionally or with an exponent, without its trailing zeros.  Either way the
text reads back as the number.
-/

namespace Wager

open Text

section Digits

variable {ds rest : Text}

theorem isDigit_of_mem_ofNat {n : Nat} : ∀ c ∈ ofNat n, c.isDigit = true :=
  fun _ hc => Nat.isDigit_of_mem_toDigits (by decide) (by decide) hc

theorem notMem_ofNat {c : Char} (mark : c.isDigit = false) (n : Nat) : c ∉ ofNat n := by
  intro hc
  rw [isDigit_of_mem_ofNat c hc] at mark
  cases mark

theorem mem_ofInt {n : Int} {c : Char} (hc : c ∈ ofInt n) : c.isDigit = true ∨ c = '-' := by
  unfold ofInt at hc
  split at hc
  · rcases List.mem_cons.mp hc with rfl | hc
    · exact .inr rfl
    · exact .inl (isDigit_of_mem_ofNat c hc)
  · exact .inl (isDigit_of_mem_ofNat c hc)

theorem ofInt_injective : Function.Injective ofInt := by
  have unsigned {n : Nat} {t : Text} : ofNat n ≠ '-' :: t := by
    intro same
    exact notMem_ofNat (by decide) n (same ▸ List.mem_cons_self : '-' ∈ ofNat n)
  intro m n same
  unfold ofInt at same
  split at same <;> split at same
  · have sizes := ofNat_injective (List.cons.inj same).2
    omega
  · exact absurd same.symm unsigned
  · exact absurd same unsigned
  · have sizes := ofNat_injective same
    omega

theorem toNat_of_isDigit {c : Char} (h : c.isDigit = true) : 48 ≤ c.toNat ∧ c.toNat ≤ 57 := by
  simp only [Char.isDigit, Bool.and_eq_true, decide_eq_true_eq, ge_iff_le,
    UInt32.le_iff_toNat_le] at h
  exact h

theorem digit?_of_isDigit {c : Char} (h : c.isDigit = true) : digit? c = some (c.toNat - 48) := by
  have bounds := toNat_of_isDigit h
  rw [digit?, if_pos (by omega), if_pos h]

def EndsRun (t : Text) : Prop := ∀ c ∈ t.head?, digit? c = none ∧ c ≠ '_'

theorem endsRun_nil : EndsRun [] := by
  simp [EndsRun]

theorem Numeral.digitRun_append (digits : ∀ c ∈ ds, c.isDigit = true) (ends : EndsRun rest)
    (value count : Nat) : digitRun value count (ds ++ rest) =
      (Nat.ofDigitChars 10 ds value, count + ds.length, rest) := by
  induction ds generalizing value count with
  | nil =>
    cases rest with
    | nil => rfl
    | cons c rest =>
      obtain ⟨other, unmarked⟩ := ends c rfl
      cases rest with
      | nil => simp [digitRun, other]
      | cons d rest => simp [digitRun, other, unmarked]
  | cons c ds ih =>
    obtain ⟨digit, later⟩ := List.forall_mem_cons.mp digits
    have step : digitRun value count (c :: (ds ++ rest)) =
        digitRun (10 * value + (c.toNat - 48)) (count + 1) (ds ++ rest) := by
      cases behind : ds ++ rest with
      | nil => simp [digitRun, digit?_of_isDigit digit]
      | cons d t => simp [digitRun, digit?_of_isDigit digit]
    rw [List.cons_append, step, ih later, Nat.ofDigitChars_cons, List.length_cons, Nat.add_assoc,
      Nat.add_comm 1]
    rfl

end Digits

namespace Decimal

theorem isDigit_of_mem_zeros (n : Nat) : ∀ c ∈ List.replicate n '0', c.isDigit = true := by
  intro c hc
  rw [List.eq_of_mem_replicate hc]
  rfl

theorem isDigit_of_mem_padZeros {width : Nat} {t : Text} (digits : ∀ c ∈ t, c.isDigit = true) :
    ∀ c ∈ padZeros width t, c.isDigit = true :=
  List.forall_mem_append.mpr ⟨isDigit_of_mem_zeros _, digits⟩

theorem isDigit_of_mem_powerDigits (e : Int) :
    ∀ c ∈ padZeros 2 (Text.ofNat e.natAbs), c.isDigit = true :=
  isDigit_of_mem_padZeros isDigit_of_mem_ofNat

/-- What may stand behind the digits of a number, with the exponent it gives. -/
structure IsExponent (tail : Text) (e : Int) : Prop where
  ends : EndsRun tail
  apart : ∀ c ∈ tail.head?, c ≠ '.'
  read : Numeral.exponent? tail = some e
  back : ∀ c ∈ tail.getLast?, c.isDigit = true

theorem isExponent_nil : IsExponent [] 0 :=
  ⟨endsRun_nil, by simp, rfl, by simp⟩

theorem isExponent_exponentText (e : Int) : IsExponent ('e' :: exponentText e) e where
  ends := by
    rintro c ⟨⟩
    decide
  apart := by
    rintro c ⟨⟩
    decide
  read := by
    have digits := isDigit_of_mem_powerDigits e
    have run := Numeral.digitRun_append digits endsRun_nil 0 0
    rw [List.append_nil, ofDigitChars_padZeros] at run
    have filled : padZeros 2 (Text.ofNat e.natAbs) ≠ [] := by
      simp [padZeros, Text.ofNat]
    unfold exponentText
    split
    next negative =>
      simp [Numeral.exponent?, Numeral.sign, run, filled]
      exact abs_of_neg negative ▸ neg_neg e
    next positive =>
      simp [Numeral.exponent?, Numeral.sign, run, filled]
      exact not_lt.mp positive
  back := by
    intro c hc
    have digits := isDigit_of_mem_powerDigits e
    have filled : padZeros 2 (Text.ofNat e.natAbs) ≠ [] := by
      simp [padZeros, Text.ofNat]
    rw [exponentText, List.getLast?_cons_of_ne_nil (List.cons_ne_nil _ _),
      List.getLast?_cons_of_ne_nil filled] at hc
    exact digits c (List.mem_of_mem_getLast? hc)

section Read

variable {whole fraction tail : Text} {e : Int}

theorem unsigned?_point (hw : ∀ c ∈ whole, c.isDigit = true) (hf : ∀ c ∈ fraction, c.isDigit = true)
    (filled : whole ≠ []) (exponent : IsExponent tail e) (negative : Bool) :
    Numeral.unsigned? negative (whole ++ '.' :: (fraction ++ tail)) =
      some (.decimal negative (Nat.ofDigitChars 10 (whole ++ fraction) 0)
        (e - fraction.length)) := by
  have point : EndsRun ('.' :: (fraction ++ tail)) := by
    rintro c ⟨⟩
    decide
  have run := Numeral.digitRun_append hf exponent.ends (Nat.ofDigitChars 10 whole 0) 0
  rw [Numeral.unsigned?, Numeral.digitRun_append hw point]
  simp [run, filled, exponent.read, Nat.ofDigitChars_append]

theorem unsigned?_whole (hw : ∀ c ∈ whole, c.isDigit = true) (filled : whole ≠ [])
    (exponent : IsExponent tail e) (negative : Bool) :
    Numeral.unsigned? negative (whole ++ tail) =
      some (.decimal negative (Nat.ofDigitChars 10 whole 0) e) := by
  rw [Numeral.unsigned?, Numeral.digitRun_append hw exponent.ends]
  dsimp only
  split
  next => exact absurd rfl (exponent.apart '.' rfl)
  next => simp [filled, exponent.read]

theorem isOuterBlank_of_isDigit {c : Char} (digit : c.isDigit = true) :
    Numeral.isOuterBlank c = false := by
  have bounds := toNat_of_isDigit digit
  simp only [Numeral.isOuterBlank, isBlank, Bool.and_eq_false_iff, Bool.or_eq_false_iff,
    decide_eq_false_iff_not, beq_eq_false_iff_ne]
  omega

theorem sign_of_isDigit {c : Char} (digit : c.isDigit = true) (t : Text) :
    Numeral.sign (c :: t) = (false, c :: t) := by
  rw [Numeral.sign.eq_def]
  split
  next same =>
    obtain ⟨rfl, -⟩ := List.cons.inj same
    cases digit
  next same =>
    obtain ⟨rfl, -⟩ := List.cons.inj same
    cases digit
  next => rfl

theorem read?_of_ends {t : Text} (filled : t ≠ []) (front : ∀ c ∈ t.head?, c.isDigit = true)
    (back : ∀ c ∈ t.getLast?, c.isDigit = true) :
    Numeral.read? t = Numeral.unsigned? false t := by
  have bare : Numeral.trimOuter t = t :=
    BareEnds.trimWhere_eq ⟨fun c hc => isOuterBlank_of_isDigit (front c hc),
      fun c hc => isOuterBlank_of_isDigit (back c hc)⟩
  obtain ⟨c, t, rfl⟩ := List.exists_cons_of_ne_nil filled
  have digit : c.isDigit = true := front c rfl
  have small : c.isUpper = false := by
    have bounds := toNat_of_isDigit digit
    simp only [Char.isUpper, decide_eq_false_iff_not, ge_iff_le, UInt32.le_iff_toNat_le]
    rintro ⟨low, -⟩
    have capital : 65 ≤ c.toNat := low
    omega
  have wordless {w : Text} (letter : ∀ d ∈ w.head?, d.isDigit = false) :
      ((c :: t).map fun c => if c.isUpper then Char.ofNat (c.toNat + 32) else c) ≠ w := by
    rintro rfl
    have first := letter c (by simp [small])
    rw [digit] at first
    cases first
  have inf : ∀ d ∈ "inf".toList.head?, d.isDigit = false := by
    rintro d ⟨⟩
    rfl
  have infinity : ∀ d ∈ "infinity".toList.head?, d.isDigit = false := by
    rintro d ⟨⟩
    rfl
  have nan : ∀ d ∈ "nan".toList.head?, d.isDigit = false := by
    rintro d ⟨⟩
    rfl
  unfold Numeral.read?
  rw [bare, sign_of_isDigit digit]
  dsimp only
  rw [if_neg, if_neg]
  · simpa using wordless nan
  · simpa using And.intro (wordless inf) (wordless infinity)

theorem ofText?_of_read {t : Text} {digits : Nat}
    (read : Numeral.read? t = some (.decimal false digits e)) :
    Scalar.ofText? (α := ℚ) t = some ((digits : ℚ) * 10 ^ e) := by
  rw [Scalar.ofText?, read]
  rfl

theorem ofText?_point (hw : ∀ c ∈ whole, c.isDigit = true) (hf : ∀ c ∈ fraction, c.isDigit = true)
    (filled : whole ≠ [] ∧ fraction ≠ []) (exponent : IsExponent tail e) :
    Scalar.ofText? (α := ℚ) (whole ++ '.' :: (fraction ++ tail)) =
      some ((Nat.ofDigitChars 10 (whole ++ fraction) 0 : ℚ) * 10 ^ (e - fraction.length)) := by
  apply ofText?_of_read
  rw [read?_of_ends (by simp), unsigned?_point hw hf filled.1 exponent]
  · intro c hc
    obtain ⟨d, w, rfl⟩ := List.exists_cons_of_ne_nil filled.1
    exact hw c (List.mem_of_mem_head? hc)
  · intro c hc
    rw [List.getLast?_append, List.getLast?_cons_of_ne_nil (by simp [filled.2]),
      List.getLast?_append] at hc
    cases last : tail.getLast? with
    | some d =>
      rw [last] at hc
      exact exponent.back c (last.trans hc)
    | none =>
      rw [last, List.getLast?_eq_some_getLast filled.2] at hc
      obtain rfl := Option.some.inj hc
      exact hf _ (List.getLast_mem filled.2)

theorem ofText?_whole (hw : ∀ c ∈ whole, c.isDigit = true) (filled : whole ≠ [])
    (exponent : IsExponent tail e) :
    Scalar.ofText? (α := ℚ) (whole ++ tail) =
      some ((Nat.ofDigitChars 10 whole 0 : ℚ) * 10 ^ e) := by
  apply ofText?_of_read
  rw [read?_of_ends (by simp [filled]), unsigned?_whole hw filled exponent]
  · intro c hc
    obtain ⟨d, w, rfl⟩ := List.exists_cons_of_ne_nil filled
    exact hw c (List.mem_of_mem_head? hc)
  · intro c hc
    rw [List.getLast?_append] at hc
    cases last : tail.getLast? with
    | some d =>
      rw [last] at hc
      exact exponent.back c (last.trans hc)
    | none =>
      rw [last] at hc
      exact hw c (List.mem_of_mem_getLast? hc)

end Read

section Shortest

variable {k : Nat}

theorem dropTrailingZeros_append (t : Text) :
    ∃ zeros, dropTrailingZeros t ++ List.replicate zeros '0' = t := by
  have zeros : (t.reverse.takeWhile (· == '0')).reverse =
      List.replicate (t.reverse.takeWhile (· == '0')).length '0' := by
    rw [List.eq_replicate_iff]
    refine ⟨List.length_reverse, fun c hc => ?_⟩
    simpa using List.mem_takeWhile_imp (List.mem_reverse.mp hc)
  refine ⟨(t.reverse.takeWhile (· == '0')).length, ?_⟩
  rw [← zeros, dropTrailingZeros, ← List.reverse_append, List.takeWhile_append_dropWhile,
    List.reverse_reverse]

theorem digits_spec (positive : 0 < k) : dropTrailingZeros (Text.ofNat k) ≠ [] ∧
    (∀ c ∈ dropTrailingZeros (Text.ofNat k), c.isDigit = true) ∧
    ∀ power : Int, (Nat.ofDigitChars 10 (dropTrailingZeros (Text.ofNat k)) 0 : ℚ) *
      10 ^ ((Text.ofNat k).length + power - (dropTrailingZeros (Text.ofNat k)).length) =
        k * 10 ^ power := by
  obtain ⟨zeros, whole⟩ := dropTrailingZeros_append (Text.ofNat k)
  generalize dropTrailingZeros (Text.ofNat k) = digits at *
  have value : 10 ^ zeros * Nat.ofDigitChars 10 digits 0 = k := by
    have read : Nat.ofDigitChars 10 (Text.ofNat k) 0 = k := Nat.ofDigitChars_ten_toDigits
    rwa [← whole, Nat.ofDigitChars_append, Nat.ofDigitChars_replicate_zero] at read
  refine ⟨?_, fun c hc => isDigit_of_mem_ofNat c (whole ▸ List.mem_append_left _ hc),
    fun power => ?_⟩
  · rintro rfl
    exact positive.ne' (value.symm.trans (Nat.mul_zero _))
  · have length : ((Text.ofNat k).length : Int) + power - digits.length = zeros + power := by
      rw [← whole, List.length_append, List.length_replicate]
      omega
    rw [length, zpow_add₀ (by norm_num), zpow_natCast, ← value]
    push_cast
    ring

/-! The forms of a written decimal, for any digits before which the point is counted. -/

section Forms

variable {digits : Text} {point : Int} (digits_are : ∀ c ∈ digits, c.isDigit = true)
  (filled : digits ≠ [])
include digits_are filled

theorem ofText?_scientific (point : Int) :
    Scalar.ofText? (α := ℚ) (digits.take 1 ++
      (if (digits.drop 1).isEmpty then [] else '.' :: digits.drop 1) ++
        'e' :: exponentText (point - 1)) =
      some ((Nat.ofDigitChars 10 digits 0 : ℚ) * 10 ^ (point - digits.length)) := by
  obtain ⟨d, more, rfl⟩ := List.exists_cons_of_ne_nil filled
  obtain ⟨first, later⟩ := List.forall_mem_cons.mp digits_are
  have one : ∀ c ∈ [d], c.isDigit = true := List.forall_mem_singleton.mpr first
  have exponent := isExponent_exponentText (point - 1)
  by_cases alone : more = []
  · subst alone
    exact ofText?_whole one filled exponent
  · have read := ofText?_point one later ⟨List.cons_ne_nil d [], alone⟩ exponent
    have places : point - 1 - (more.length : Int) = point - ((d :: more).length : Nat) := by
      rw [List.length_cons]
      omega
    rw [places] at read
    simpa [alone] using read

theorem ofText?_below_one (low : point ≤ 0) :
    Scalar.ofText? (α := ℚ) ('0' :: '.' :: (List.replicate (-point).toNat '0' ++ digits)) =
      some ((Nat.ofDigitChars 10 digits 0 : ℚ) * 10 ^ (point - digits.length)) := by
  have padded := List.forall_mem_append.mpr ⟨isDigit_of_mem_zeros (-point).toNat, digits_are⟩
  have zero : ∀ c ∈ ['0'], c.isDigit = true := List.forall_mem_singleton.mpr rfl
  have read := ofText?_point zero padded ⟨List.cons_ne_nil _ _, by simp [filled]⟩ isExponent_nil
  have leading : Nat.ofDigitChars 10 (['0'] ++ (List.replicate (-point).toNat '0' ++ digits)) 0 =
      Nat.ofDigitChars 10 digits 0 := by
    rw [Nat.ofDigitChars_append, Nat.ofDigitChars_append, Nat.ofDigitChars_replicate_zero]
    rfl
  have places : (0 : Int) - (List.replicate (-point).toNat '0' ++ digits).length =
      point - digits.length := by
    rw [List.length_append, List.length_replicate]
    omega
  rwa [leading, places, List.append_nil] at read

theorem ofText?_filled (high : digits.length ≤ point) :
    Scalar.ofText? (α := ℚ)
        (digits ++ List.replicate (point.toNat - digits.length) '0' ++ '.' :: ['0']) =
      some ((Nat.ofDigitChars 10 digits 0 : ℚ) * 10 ^ (point - digits.length)) := by
  have zero : ∀ c ∈ ['0'], c.isDigit = true := List.forall_mem_singleton.mpr rfl
  have padded := List.forall_mem_append.mpr
    ⟨digits_are, isDigit_of_mem_zeros (point.toNat - digits.length)⟩
  have read := ofText?_point padded zero ⟨by simp [filled], List.cons_ne_nil _ _⟩ isExponent_nil
  rw [List.append_nil] at read
  have value : Nat.ofDigitChars 10
      (digits ++ List.replicate (point.toNat - digits.length) '0' ++ ['0']) 0 =
        10 * (10 ^ (point.toNat - digits.length) * Nat.ofDigitChars 10 digits 0) := by
    rw [Nat.ofDigitChars_append, Nat.ofDigitChars_append, Nat.ofDigitChars_replicate_zero]
    rfl
  have places : point - (digits.length : Int) = (point.toNat - digits.length : Nat) := by
    omega
  rw [read, value, places, zpow_natCast]
  push_cast
  norm_num
  ring

omit filled in
theorem ofText?_cut (high : 0 < point) (more : point < digits.length) :
    Scalar.ofText? (α := ℚ) (digits.take point.toNat ++ '.' :: digits.drop point.toNat) =
      some ((Nat.ofDigitChars 10 digits 0 : ℚ) * 10 ^ (point - digits.length)) := by
  have front : ∀ c ∈ digits.take point.toNat, c.isDigit = true :=
    fun c hc => digits_are c (List.mem_of_mem_take hc)
  have behind : ∀ c ∈ digits.drop point.toNat, c.isDigit = true :=
    fun c hc => digits_are c (List.mem_of_mem_drop hc)
  have some_front : digits.take point.toNat ≠ [] := by
    rw [← List.length_pos_iff, List.length_take]
    omega
  have some_behind : digits.drop point.toNat ≠ [] := by
    rw [← List.length_pos_iff, List.length_drop]
    omega
  have read := ofText?_point front behind ⟨some_front, some_behind⟩ isExponent_nil
  have places : (0 : Int) - (digits.drop point.toNat).length = point - digits.length := by
    rw [List.length_drop]
    omega
  rwa [List.take_append_drop, places, List.append_nil] at read

end Forms

theorem ofText?_shortestText (positive : 0 < k) (power : Int) :
    Scalar.ofText? (α := ℚ) (shortestText k power) = some ((k : ℚ) * 10 ^ power) := by
  obtain ⟨filled, digits_are, value⟩ := digits_spec positive
  rw [← value]
  unfold shortestText
  dsimp only
  generalize dropTrailingZeros (Text.ofNat k) = digits at *
  generalize ((Text.ofNat k).length : Int) + power = point
  split
  next => exact ofText?_scientific digits_are filled point
  next =>
    split
    next low => exact ofText?_below_one digits_are filled low
    next high =>
      by_cases all_whole : (digits.length : Int) ≤ point
      · have everything : digits.length ≤ point.toNat := by
          omega
        rw [List.take_of_length_le everything, List.drop_of_length_le everything, List.isEmpty_nil,
          if_pos rfl]
        exact ofText?_filled digits_are filled all_whole
      · have cut : (digits.take point.toNat).length = point.toNat := by
          rw [List.length_take]
          omega
        have some_behind : (digits.drop point.toNat).isEmpty = false := by
          rw [List.isEmpty_eq_false_iff, ← List.length_pos_iff, List.length_drop]
          omega
        rw [cut, Nat.sub_self, List.replicate_zero, List.append_nil, some_behind,
          if_neg Bool.false_ne_true]
        exact ofText?_cut digits_are (not_le.mp high) (not_le.mp all_whole)

theorem head_shortestText (positive : 0 < k) (power : Int) :
    ∀ c ∈ (shortestText k power).head?, c.isDigit = true := by
  obtain ⟨filled, digits_are, -⟩ := digits_spec positive
  unfold shortestText
  dsimp only
  obtain ⟨d, more, digits⟩ := List.exists_cons_of_ne_nil filled
  have first := digits_are d (digits ▸ List.mem_cons_self)
  rw [digits]
  split
  next =>
    rintro c ⟨⟩
    exact first
  next =>
    split
    next =>
      rintro c ⟨⟩
      rfl
    next high =>
      obtain ⟨n, point⟩ : ∃ n, (((Text.ofNat k).length : Int) + power).toNat = n + 1 :=
        Nat.exists_eq_add_one.mpr (by omega)
      rw [point]
      rintro c ⟨⟩
      exact first

def IsNumeric (t : Text) : Prop := ∀ c ∈ t, c.isDigit = true ∨ c ∈ ['.', 'e', '+', '-']

theorem isNumeric_of_digits {t : Text} (h : ∀ c ∈ t, c.isDigit = true) : IsNumeric t :=
  fun c hc => .inl (h c hc)

theorem IsNumeric.append {t u : Text} (ht : IsNumeric t) (hu : IsNumeric u) : IsNumeric (t ++ u) :=
  List.forall_mem_append.mpr ⟨ht, hu⟩

theorem IsNumeric.cons {c : Char} {t : Text} (mark : c ∈ ['.', 'e', '+', '-']) (h : IsNumeric t) :
    IsNumeric (c :: t) :=
  List.forall_mem_cons.mpr ⟨.inr mark, h⟩

theorem isNumeric_shortestText (k : Nat) (power : Int) : IsNumeric (shortestText k power) := by
  obtain ⟨zeros, whole⟩ := dropTrailingZeros_append (Text.ofNat k)
  have digits : ∀ c ∈ dropTrailingZeros (Text.ofNat k), c.isDigit = true :=
    fun c hc => isDigit_of_mem_ofNat c (whole ▸ List.mem_append_left _ hc)
  have front (n : Nat) : IsNumeric ((dropTrailingZeros (Text.ofNat k)).take n) :=
    isNumeric_of_digits fun c hc => digits c (List.mem_of_mem_take hc)
  have behind (n : Nat) : IsNumeric ((dropTrailingZeros (Text.ofNat k)).drop n) :=
    isNumeric_of_digits fun c hc => digits c (List.mem_of_mem_drop hc)
  have filling (n : Nat) : IsNumeric (List.replicate n '0') :=
    isNumeric_of_digits (isDigit_of_mem_zeros n)
  have zero : IsNumeric ['0'] := filling 1
  have exponent (e : Int) : IsNumeric ('e' :: exponentText e) := by
    have power := isNumeric_of_digits (isDigit_of_mem_powerDigits e)
    unfold exponentText
    split
    · exact .cons (by decide) (.cons (by decide) power)
    · exact .cons (by decide) (.cons (by decide) power)
  unfold shortestText
  dsimp only
  split
  next =>
    refine ((front 1).append ?_).append (exponent _)
    split
    · exact isNumeric_of_digits (by simp)
    · exact .cons (by decide) (behind 1)
  next =>
    split
    next => exact zero.append (.cons (by decide) ((filling _).append (isNumeric_of_digits digits)))
    next =>
      refine ((front _).append (filling _)).append (.cons (by decide) ?_)
      split
      · exact zero
      · exact behind _

theorem mark_mem_shortestText (k : Nat) (power : Int) :
    '.' ∈ shortestText k power ∨ 'e' ∈ shortestText k power := by
  unfold shortestText
  dsimp only
  split
  next => exact .inr (by simp)
  next =>
    left
    split
    · simp
    · simp

end Shortest

end Decimal

end Wager
