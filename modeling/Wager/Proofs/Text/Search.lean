import Wager.Proofs.Entry.Coverage

/-!
# Searching in lower case

Lower case leaves characters without case where they are, but for one thing: a dotted capital I
becomes two characters.  So a piece without case is found in the lower case of a text as many places
further on as there are such letters in front of it.
-/

namespace Wager.Text

section Caseless

/-- A character that is its own lower case and nothing else's. -/
structure Caseless (d : Char) : Prop where
  small : lowerChar d = [d]
  only : ∀ c, d ∈ lowerChar c → c = d
  noSigma : d ≠ '\u03C2'

/-- Whether a code point lies outside the case ranges and what they are moved to. -/
def isApart (n : Nat) : Bool :=
  lowerRanges.all fun r => (r.last.blt n || n.blt r.first) &&
    (decide (r.last + r.shift < n) || decide (n < r.first + r.shift))

theorem isUpper_iff {c : Char} : c.isUpper = true ↔ 0x41 ≤ c.toNat ∧ c.toNat ≤ 0x5A := by
  simp only [Char.isUpper, decide_eq_true_eq, ge_iff_le, UInt32.le_iff_toNat_le]
  rfl

variable {d : Char}

theorem outside_of_isApart {n : Nat} (apart : isApart n = true) : ∀ r ∈ lowerRanges,
    (r.last < n ∨ n < r.first) ∧
      ((r.last : Int) + r.shift < n ∨ (n : Int) < r.first + r.shift) := by
  intro r hr
  simpa only [Bool.and_eq_true, Bool.or_eq_true, Nat.blt_eq, decide_eq_true_eq] using
    List.all_eq_true.mp apart r hr

theorem ascii_of_isApart {n : Nat} (apart : isApart n = true) :
    (n < 0x41 ∨ 0x5A < n) ∧ (n < 0x61 ∨ 0x7A < n) := by
  have ascii := outside_of_isApart apart ⟨0x41, 0x5A, 1, 32⟩ List.mem_cons_self
  dsimp only at ascii
  omega

theorem apply_of_isApart (apart : isApart d.toNat = true) : CaseRange.apply lowerRanges d = d := by
  have uncovered : lowerRanges.find? (·.covers d.toNat) = none := by
    rw [List.find?_eq_none]
    intro r hr
    have outside := (outside_of_isApart apart r hr).1
    simp only [CaseRange.covers, Bool.and_eq_true, decide_eq_true_eq]
    omega
  rw [CaseRange.apply, uncovered]

theorem eq_of_apply_of_isApart {c : Char} (apart : isApart d.toNat = true) (some_code : d.toNat ≠ 0)
    (lowered : CaseRange.apply lowerRanges c = d) : c = d := by
  rw [CaseRange.apply] at lowered
  split at lowered
  next r found =>
    have covered := List.find?_some found
    have outside := (outside_of_isApart apart r (List.mem_of_find?_eq_some found)).2
    simp only [CaseRange.covers, Bool.and_eq_true, decide_eq_true_eq] at covered
    have code := congrArg Char.toNat lowered
    rw [Char.toNat_ofNat] at code
    split at code <;> omega
  next => exact lowered

theorem caseless_of_isApart (apart : isApart d.toNat = true)
    (other : d ∉ ['i', '\u0307', '\u0130', '\u03C2', '\u0000']) : Caseless d := by
  simp only [List.mem_cons, List.not_mem_nil, or_false, not_or] at other
  obtain ⟨noI, noDot, noDotted, noSigma, noNull⟩ := other
  have ascii := ascii_of_isApart apart
  have some_code : d.toNat ≠ 0 := fun zero => noNull (Char.toNat_inj.mp zero)
  have notUpper : d.isUpper = false := by
    rw [Bool.eq_false_iff, ne_eq, isUpper_iff]
    omega
  refine ⟨?_, ?_, noSigma⟩
  · simp [lowerChar, notUpper, noDotted, apply_of_isApart apart]
  · intro c hc
    unfold lowerChar at hc
    split at hc
    next low =>
      split at hc
      next upper =>
        obtain rfl := List.mem_singleton.mp hc
        rw [isUpper_iff] at upper
        rw [Char.toNat_ofNat, if_pos (.inl (by omega))] at ascii
        omega
      next => exact (List.mem_singleton.mp hc).symm
    next high =>
      split at hc
      next => simp [noI, noDot] at hc
      next => exact eq_of_apply_of_isApart apart some_code (List.mem_singleton.mp hc).symm

end Caseless

section Finding

variable {piece t : Text}

theorem eq_of_indexOf? {i : Nat} (found : indexOf? piece t = some i) :
    t = t.take i ++ piece ++ t.drop (i + piece.length) := by
  induction t generalizing i with
  | nil =>
    rw [indexOf?] at found
    split at found
    next empty => simp [List.isEmpty_iff.mp empty]
    next => cases found
  | cons c t ih =>
    rw [indexOf?] at found
    split at found
    next here =>
      obtain rfl := Option.some.inj found
      obtain ⟨rest, same⟩ := List.isPrefixOf_iff_prefix.mp here
      rw [← same]
      simp
    next =>
      obtain ⟨j, later, rfl⟩ := Option.map_eq_some_iff.mp found
      rw [List.take_succ_cons, Nat.add_right_comm, List.drop_succ_cons, List.cons_append,
        List.cons_append, ← ih later]

theorem Caseless.not_sigma {d : Char} (h : Caseless d) : d ≠ '\u03A3' ∧ d ≠ '\u03C3' := by
  constructor
  · rintro rfl
    have moved : lowerChar '\u03A3' ≠ ['\u03A3'] := by decide
    exact moved h.small
  · rintro rfl
    have sigma := h.only '\u03A3' (by decide)
    exact absurd sigma (by decide)

theorem Caseless.not_dotted {d : Char} (h : Caseless d) :
    d ≠ 'i' ∧ d ≠ '\u0307' ∧ d ≠ '\u0130' := by
  refine ⟨?_, ?_, ?_⟩
  · rintro rfl
    exact absurd (h.only '\u0130' (by decide)) (by decide)
  · rintro rfl
    exact absurd (h.only '\u0130' (by decide)) (by decide)
  · rintro rfl
    exact absurd h.small (by decide)

theorem isPrefixOf_cons_of_ne {d x : Char} (other : d ≠ x) (piece rest : Text) :
    (d :: piece).isPrefixOf (x :: rest) = false := by
  simp [List.isPrefixOf, other]

theorem isPrefixOf_lowerFrom (caseless : ∀ d ∈ piece, Caseless d) (before t : Text) :
    piece.isPrefixOf (lowerFrom before t) = piece.isPrefixOf t := by
  induction piece generalizing before t with
  | nil => rfl
  | cons d piece ih =>
    obtain ⟨first, later⟩ := List.forall_mem_cons.mp caseless
    cases t with
    | nil => rfl
    | cons c t =>
      rw [lowerFrom]
      split
      next sigma =>
        obtain ⟨capital, medial⟩ := first.not_sigma
        rw [beq_iff_eq.mp sigma, isPrefixOf_cons_of_ne capital]
        split
        · exact isPrefixOf_cons_of_ne first.noSigma _ _
        · exact isPrefixOf_cons_of_ne medial _ _
      next =>
        by_cases same : c = d
        · rw [same, first.small]
          simp [List.isPrefixOf, ih later]
        · obtain ⟨x, rest, lowered⟩ := List.exists_cons_of_ne_nil (lowerChar_ne_nil c)
          have other : d ≠ x := by
            rintro rfl
            exact same (first.only c (lowered ▸ List.mem_cons_self))
          rw [lowered, List.cons_append, isPrefixOf_cons_of_ne other,
            isPrefixOf_cons_of_ne (Ne.symm same)]

theorem indexOf?_of_isPrefixOf (here : piece.isPrefixOf t = true) : indexOf? piece t = some 0 := by
  cases t with
  | nil =>
    obtain rfl := List.prefix_nil.mp (List.isPrefixOf_iff_prefix.mp here)
    rfl
  | cons c t => rw [indexOf?, if_pos here]

theorem indexOf?_cons_of_not {c : Char} (missed : piece.isPrefixOf (c :: t) = false) :
    indexOf? piece (c :: t) = (indexOf? piece t).map (· + 1) := by
  rw [indexOf?, missed, if_neg Bool.false_ne_true]

theorem exists_lowerFrom_cons {c : Char} (undotted : c ≠ '\u0130') (before t : Text) :
    ∃ x, lowerFrom before (c :: t) = x :: lowerFrom (c :: before) t := by
  rw [lowerFrom]
  split
  · exact ⟨_, rfl⟩
  · obtain ⟨x, lowered⟩ := List.length_eq_one_iff.mp (length_lowerChar undotted)
    exact ⟨x, by rw [lowered]; rfl⟩

/-- In the lower case of a text a caseless piece stands further on by one place for each dotted
capital I in front of it. -/
theorem indexOf?_lowerFrom (caseless : ∀ d ∈ piece, Caseless d) (before t : Text) :
    indexOf? piece (lowerFrom before t) =
      (indexOf? piece t).map fun i => i + (t.take i).count '\u0130' := by
  induction t generalizing before with
  | nil => cases piece <;> rfl
  | cons c t ih =>
    have same := isPrefixOf_lowerFrom caseless before (c :: t)
    cases here : piece.isPrefixOf (c :: t) with
    | true =>
      rw [here] at same
      rw [indexOf?_of_isPrefixOf same, indexOf?_of_isPrefixOf here]
      rfl
    | false =>
      rw [here] at same
      rw [indexOf?_cons_of_not here, Option.map_map]
      by_cases dotted : c = '\u0130'
      · -- Behind the letter's small form stands its dot, where no caseless piece begins.
        subst dotted
        have lowered : lowerFrom before ('\u0130' :: t) =
            'i' :: '\u0307' :: lowerFrom ('\u0130' :: before) t := rfl
        rw [lowered] at same ⊢
        have dot : piece.isPrefixOf ('\u0307' :: lowerFrom ('\u0130' :: before) t) = false := by
          cases piece with
          | nil => cases here
          | cons d piece =>
            exact isPrefixOf_cons_of_ne (caseless d List.mem_cons_self).not_dotted.2.1 _ _
        rw [indexOf?_cons_of_not same, indexOf?_cons_of_not dot, ih, Option.map_map, Option.map_map]
        congr 1
        funext i
        simp only [Function.comp, List.take_succ_cons, List.count_cons_self]
        omega
      · obtain ⟨x, lowered⟩ := exists_lowerFrom_cons dotted before t
        rw [lowered] at same ⊢
        rw [indexOf?_cons_of_not same, ih, Option.map_map]
        congr 1
        funext i
        simp only [Function.comp, List.take_succ_cons, List.count_cons_of_ne dotted]
        omega

theorem indexOf?_lower (caseless : ∀ d ∈ piece, Caseless d) (undotted : '\u0130' ∉ t) :
    indexOf? piece (lower t) = indexOf? piece t := by
  have none (i : Nat) : (t.take i).count '\u0130' = 0 :=
    List.count_eq_zero_of_not_mem fun h => undotted (List.mem_of_mem_take h)
  rw [lower, indexOf?_lowerFrom caseless]
  simp only [none, Nat.add_zero, Option.map_id']

end Finding

end Wager.Text
