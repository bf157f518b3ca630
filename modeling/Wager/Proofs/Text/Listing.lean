import Wager.Proofs.Text.Spacing

/-!
# Lists of names

Names in normal form and without a comma can be listed in one text with commas between them.  The
text is in normal form again, and it falls back into the names at its commas.
-/

namespace Wager.Text

theorem IsName.normalizeName_eq {t : Text} (h : IsName t) (commas : spaceCommas t = t) :
    normalizeName t = t := by
  rw [normalizeName, h.normalize_eq, commas, h.ends.trimWhere_eq]

theorem isName_nil : IsName [] := ⟨by simp [HalfWidth], ⟨by simp, by simp⟩, ⟨by simp, by simp⟩⟩

theorem IsName.append_comma {x y : Text} (hx : IsName x) (hy : IsName y) (some_x : x ≠ [])
    (some_y : y ≠ []) : IsName (x ++ ',' :: ' ' :: y) where
  plain := by
    intro c hc
    simp only [List.mem_append, List.mem_cons] at hc
    rcases hc with hc | rfl | rfl | hc
    · exact hx.plain c hc
    · rfl
    · rfl
    · exact hy.plain c hc
  spaced := by
    refine hx.spaced.append (singleSpaced_comma.append hy.spaced (.inr hy.bare.front)) (.inr ?_)
    rintro c ⟨⟩
    decide
  ends := by
    obtain ⟨c, x, rfl⟩ := List.exists_cons_of_ne_nil some_x
    constructor
    · exact hx.ends.front
    · intro d hd
      apply hy.ends.back d
      rw [List.getLast?_append, List.getLast?_cons_of_ne_nil (List.cons_ne_nil _ _),
        List.getLast?_cons_of_ne_nil some_y] at hd
      rwa [List.getLast?_eq_some_getLast some_y] at hd ⊢

def Listable (names : List Text) : Prop := ∀ n ∈ names, IsName n ∧ n ≠ [] ∧ ',' ∉ n

theorem join_cons_cons (n m : Text) (names : List Text) : join [',', ' '] (n :: m :: names) =
    n ++ ',' :: ' ' :: join [',', ' '] (m :: names) := by
  rw [join, List.append_assoc]
  · rfl
  · simp

theorem Listable.isName_join {names : List Text} (h : Listable names) :
    IsName (join [',', ' '] names) ∧ (names ≠ [] → join [',', ' '] names ≠ []) := by
  induction names with
  | nil => exact ⟨isName_nil, fun h => absurd rfl h⟩
  | cons n names ih =>
    obtain ⟨name, nonempty, -⟩ := h n List.mem_cons_self
    cases names with
    | nil => exact ⟨name, fun _ => nonempty⟩
    | cons m names =>
      obtain ⟨rest, some_rest⟩ := ih fun x hx => h x (List.mem_cons_of_mem n hx)
      rw [join_cons_cons]
      exact ⟨name.append_comma rest nonempty (some_rest (List.cons_ne_nil m names)), by simp⟩

theorem Listable.spaceCommas_join {names : List Text} (h : Listable names) :
    spaceCommas (join [',', ' '] names) = join [',', ' '] names := by
  induction names with
  | nil => rfl
  | cons n names ih =>
    obtain ⟨name, -, free⟩ := h n List.mem_cons_self
    cases names with
    | nil => exact spaceCommas_of_notMem free
    | cons m names =>
      have later : Listable (m :: names) := fun x hx => h x (List.mem_cons_of_mem n hx)
      have back : n.rdropWhile isBlank = n := rdropWhile_of_back name.bare.back
      have front : skipBlanks (' ' :: join [',', ' '] (m :: names)) =
          join [',', ' '] (m :: names) := by
        have solid : isBlank ' ' = true := by decide
        rw [skipBlanks, List.dropWhile_cons_of_pos solid]
        apply dropWhile_of_front
        exact later.isName_join.1.bare.front
      rw [join_cons_cons, spaceCommas_append_cons free, back, front, ih later]

theorem Listable.normalizeName_join {names : List Text} (h : Listable names) :
    normalizeName (join [',', ' '] names) = join [',', ' '] names :=
  h.isName_join.1.normalizeName_eq h.spaceCommas_join

section

variable {p q : Char → Bool}

theorem splitWhere_cons (p : Char → Bool) (c : Char) (t : Text) : splitWhere p (c :: t) =
    if p c then [] :: splitWhere p t else (splitWhere p t).modifyHead (c :: ·) := by
  rw [splitWhere]
  cases pieces : splitWhere p t with
  | nil => exact absurd pieces (splitWhere_ne_nil p t)
  | cons piece more => rfl

theorem splitWhere_append_cons {c : Char} (cut : p c = true) (x y : Text) :
    splitWhere p (x ++ c :: y) = splitWhere p x ++ splitWhere p y := by
  induction x with
  | nil =>
    rw [List.nil_append, splitWhere_cons, if_pos cut]
    rfl
  | cons d x ih =>
    rw [List.cons_append, splitWhere_cons, splitWhere_cons, ih]
    cases pieces : splitWhere p x with
    | nil => exact absurd pieces (splitWhere_ne_nil p x)
    | cons piece more => split <;> rfl

theorem splitWhere_congr {t : Text} (same : ∀ c ∈ t, p c = q c) :
    splitWhere p t = splitWhere q t := by
  induction t with
  | nil => rfl
  | cons c t ih =>
    rw [splitWhere_cons, splitWhere_cons, same c List.mem_cons_self,
      ih fun d hd => same d (List.mem_cons_of_mem c hd)]

theorem splitWhere_of_none {t : Text} (none : ∀ c ∈ t, p c = false) : splitWhere p t = [t] := by
  induction t with
  | nil => rfl
  | cons c t ih =>
    rw [splitWhere_cons, none c List.mem_cons_self, if_neg Bool.false_ne_true,
      ih fun d hd => none d (List.mem_cons_of_mem c hd)]
    rfl

theorem map_trim_splitWhere_space (kept : p ' ' = false) (t : Text) :
    (splitWhere p (' ' :: t)).map trim = (splitWhere p t).map trim := by
  rw [splitWhere_cons, kept, if_neg Bool.false_ne_true]
  cases pieces : splitWhere p t with
  | nil => exact absurd pieces (splitWhere_ne_nil p t)
  | cons piece more => rfl

theorem map_trim_splitWhere_join (cut : p ',' = true) (kept : p ' ' = false) (n : Text)
    (names : List Text) : (splitWhere p (join [',', ' '] (n :: names))).map trim =
      (n :: names).flatMap fun n => (splitWhere p n).map trim := by
  induction names generalizing n with
  | nil => simp [join]
  | cons m names ih =>
    rw [join_cons_cons, splitWhere_append_cons cut, List.map_append,
      map_trim_splitWhere_space kept, ih m]
    rfl

theorem mem_splitWhere {c : Char} {t : Text} (kept : p c = false) (hc : c ∈ t) :
    ∃ piece ∈ splitWhere p t, c ∈ piece := by
  induction t with
  | nil => cases hc
  | cons d t ih =>
    rw [splitWhere_cons]
    rcases List.mem_cons.mp hc with rfl | hc
    · rw [kept, if_neg Bool.false_ne_true]
      cases pieces : splitWhere p t with
      | nil => exact absurd pieces (splitWhere_ne_nil p t)
      | cons piece more => exact ⟨c :: piece, List.mem_cons_self, List.mem_cons_self⟩
    · obtain ⟨piece, member, inside⟩ := ih hc
      split
      · exact ⟨piece, List.mem_cons_of_mem [] member, inside⟩
      · cases pieces : splitWhere p t with
        | nil => exact absurd pieces (splitWhere_ne_nil p t)
        | cons first more =>
          rw [pieces] at member
          rcases List.mem_cons.mp member with rfl | member
          · exact ⟨d :: piece, List.mem_cons_self, List.mem_cons_of_mem d inside⟩
          · exact ⟨piece, List.mem_cons_of_mem _ member, inside⟩

end

end Wager.Text
