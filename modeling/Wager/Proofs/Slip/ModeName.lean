import Wager.Proofs.Slip.Sweep
import Wager.Proofs.Text.Search
import Wager.Slip.Extraction

/-!
# Cutting out the name of a mode

A mode that is named in a slip is cut out of it: its name goes, one space stands for it, and all
else is kept.  A label is looked for in the lower case of the slip but cut out of the slip itself,
so behind a dotted capital I, which takes two places in lower case, the cut misses the label.
-/

namespace Wager

open Text

namespace Text

def SpelledAs (w t : Text) : Prop := List.Forall₂ (fun k c => sameLetter k c = true) w t

theorem SpelledAs.refl (w : Text) : SpelledAs w w :=
  List.forall₂_same.mpr fun c _ => by simp [sameLetter]

theorem spelledAs_of_afterWord? {w t tail : Text} (read : afterWord? w t = some tail) :
    ∃ name, t = name ++ tail ∧ SpelledAs w name := by
  induction w generalizing t with
  | nil =>
    cases read
    exact ⟨[], rfl, .nil⟩
  | cons k w ih =>
    cases t with
    | nil => cases read
    | cons c t =>
      rw [afterWord?] at read
      split at read
      next same =>
        obtain ⟨name, rfl, spelled⟩ := ih read
        exact ⟨c :: name, rfl, .cons same spelled⟩
      next => cases read

end Text

namespace Keyword

theorem exists_of_word? {w t tail : Text} {before : Option Char}
    (read : word? w before t = some tail) :
    ∃ name, t = name ++ tail ∧ SpelledAs w name := by
  obtain ⟨-, -, read⟩ := Option.bind_eq_some_iff.mp read
  obtain ⟨rest, spelled, read⟩ := Option.bind_eq_some_iff.mp read
  obtain ⟨-, -, read⟩ := Option.bind_eq_some_iff.mp read
  cases read
  exact spelledAs_of_afterWord? spelled

theorem eq_of_mark? {m t tail : Text} (read : mark? m t = some tail) : t = m ++ tail := by
  unfold mark? at read
  split at read
  next here =>
    obtain ⟨rest, rfl⟩ := List.isPrefixOf_iff_prefix.mp here
    rw [List.drop_left] at read
    rw [Option.some.inj read]
  next => cases read

end Keyword

namespace Mode

/-- Whether a text names a mode: its label, or one of its other names in any letter case. -/
def IsName (m : Mode) (t : Text) : Prop := t = m.label ∨ ∃ w, (w, m) ∈ aliases ∧ SpelledAs w t

theorem caseless_label (m : Mode) : ∀ d ∈ m.label, Caseless d := by
  have apart : (all.all fun m => m.label.all fun d =>
      isApart d.toNat && decide (d ∉ ['i', '\u0307', '\u0130', '\u03C2', '\u0000'])) = true := by
    decide +kernel
  intro d hd
  have checked := List.all_eq_true.mp (List.all_eq_true.mp apart m (by cases m <;> decide)) d hd
  simp only [Bool.and_eq_true, decide_eq_true_eq] at checked
  exact caseless_of_isApart checked.1 checked.2

end Mode

namespace Extraction

variable {t rest : Text} {m : Mode}

theorem exists_of_modeWord {w tail : Text} {before : Option Char}
    (read : modeWord w before t = some ((), tail)) :
    ∃ name, t = name ++ tail ∧ SpelledAs w name := by
  unfold modeWord at read
  split at read
  · obtain ⟨rest, word, read⟩ := Option.bind_eq_some_iff.mp read
    obtain ⟨-, -, read⟩ := Option.bind_eq_some_iff.mp read
    cases read
    exact Keyword.exists_of_word? word
  · obtain ⟨-, -, read⟩ := Option.bind_eq_some_iff.mp read
    obtain ⟨rest, mark, read⟩ := Option.bind_eq_some_iff.mp read
    obtain ⟨-, -, read⟩ := Option.bind_eq_some_iff.mp read
    cases read
    exact ⟨w, Keyword.eq_of_mark? mark, .refl w⟩

theorem exists_of_takeAlias? (taken : takeAlias? t = some (m, rest)) : ∃ front name back,
    t = front ++ name ++ back ∧ m.IsName name ∧ rest = front ++ ' ' :: back := by
  obtain ⟨⟨w, m'⟩, known, found⟩ := List.exists_of_findSome?_eq_some taken
  obtain ⟨⟨front, _, tail⟩, searched, same⟩ := Option.map_eq_some_iff.mp found
  cases same
  obtain ⟨behind, rfl, read⟩ := Pattern.eq_of_findFrom searched
  obtain ⟨name, rfl, spelled⟩ := exists_of_modeWord read
  exact ⟨front, name, tail, by rw [List.append_assoc], .inr ⟨w, known, spelled⟩, rfl⟩

theorem exists_of_takeLabel? (taken : takeLabel? t = some (m, rest)) : ∃ front back,
    t = front ++ m.label ++ back ∧
      rest = t.take (front.length + front.count '\u0130') ++
        ' ' :: t.drop (front.length + front.count '\u0130' + m.label.length) := by
  obtain ⟨m', -, found⟩ := List.exists_of_findSome?_eq_some taken
  obtain ⟨i, lowered, same⟩ := Option.map_eq_some_iff.mp found
  cases same
  rw [lower, indexOf?_lowerFrom m.caseless_label] at lowered
  obtain ⟨j, standing, rfl⟩ := Option.map_eq_some_iff.mp lowered
  have parts := eq_of_indexOf? standing
  have filled : 0 < m.label.length := by cases m <;> decide
  have length : (t.take j).length = j := by
    have lengths := congrArg List.length parts
    simp only [List.length_append, List.length_take, List.length_drop] at lengths ⊢
    omega
  exact ⟨t.take j, t.drop (j + m.label.length), parts, by rw [length]⟩

/-- A mode that is taken out of a slip is named in it, and its name is cut out: one space stands for
it and all else is kept.  Only a label behind dotted capital I's is missed by the cut, by as many
places as there are of these. -/
theorem takeMode_cuts (taken : takeMode t = (some m, rest)) : ∃ front name back,
    t = front ++ name ++ back ∧ m.IsName name ∧ (rest = front ++ ' ' :: back ∨
      name = m.label ∧ '\u0130' ∈ front ∧
        rest = t.take (front.length + front.count '\u0130') ++
          ' ' :: t.drop (front.length + front.count '\u0130' + name.length)) := by
  unfold takeMode at taken
  split at taken
  next m' rest' found =>
    cases taken
    cases label : takeLabel? t with
    | some result =>
      rw [label] at found
      cases found
      obtain ⟨front, back, parts, cut⟩ := exists_of_takeLabel? label
      refine ⟨front, m.label, back, parts, .inl rfl, ?_⟩
      by_cases dotted : '\u0130' ∈ front
      · exact .inr ⟨rfl, dotted, cut⟩
      · left
        rw [cut, List.count_eq_zero_of_not_mem dotted, parts]
        simp
    | none =>
      rw [label] at found
      obtain ⟨front, name, back, parts, named, cut⟩ := exists_of_takeAlias? found
      exact ⟨front, name, back, parts, named, .inl cut⟩
  next => cases taken

theorem takeMode_cuts_capitals : takeMode "a LEVERAGE 2-1".toList =
      (some .leveraged, "a   2-1".toList) ∧
    ∃ front name back, "a LEVERAGE 2-1".toList = front ++ name ++ back ∧
      Mode.leveraged.IsName name ∧ ("a   2-1".toList = front ++ ' ' :: back ∨
        name = Mode.leveraged.label ∧ '\u0130' ∈ front ∧ "a   2-1".toList =
          "a LEVERAGE 2-1".toList.take (front.length + front.count '\u0130') ++ ' ' ::
            "a LEVERAGE 2-1".toList.drop (front.length + front.count '\u0130' + name.length)) := by
  have taken : takeMode "a LEVERAGE 2-1".toList = (some .leveraged, "a   2-1".toList) := by
    decide +kernel
  exact ⟨taken, takeMode_cuts taken⟩

/-- Behind a dotted capital I the label of a mode stays in part. -/
theorem exists_label_missed : ∃ m rest, takeMode "İ常规".toList = (some m, rest) ∧
    ¬∃ front name back, "İ常规".toList = front ++ name ++ back ∧ m.IsName name ∧
      rest = front ++ ' ' :: back := by
  refine ⟨.standard, "İ常 ".toList, by decide +kernel, ?_⟩
  rintro ⟨front, name, back, parts, named, cut⟩
  have label : name = ['常', '规'] := by
    rcases named with label | ⟨w, known, -⟩
    · exact label
    · simp [Mode.aliases] at known
  have whole := congrArg List.length parts
  have left := congrArg List.length cut
  simp [label] at whole left
  omega

end Extraction

end Wager
