import Wager.Proofs.Text.Trim
import Wager.Team.Directory

/-!
# Lists of names

Names that are kept are trimmed, not blank and different in lower case.  Taking in further names
only adds to a list, so a team that rows are merged into keeps the names it has, in front.
-/

namespace Wager

open Text

theorem distinctNamesFrom_cons (seen : List Text) (raw : Text) (rest : List Text) :
    distinctNamesFrom seen (raw :: rest) =
      if (trim raw).isEmpty || seen.contains (nameKey raw) then distinctNamesFrom seen rest
      else trim raw :: distinctNamesFrom (nameKey raw :: seen) rest := rfl

theorem mem_distinctNamesFrom {seen names : List Text} {x : Text}
    (h : x ∈ distinctNamesFrom seen names) : ∃ raw ∈ names, x = trim raw := by
  induction names generalizing seen with
  | nil => simp [distinctNamesFrom] at h
  | cons raw rest ih =>
    rw [distinctNamesFrom_cons] at h
    split at h
    · obtain ⟨y, hy, he⟩ := ih h
      exact ⟨y, List.mem_cons_of_mem raw hy, he⟩
    · rcases List.mem_cons.mp h with rfl | h
      · exact ⟨raw, List.mem_cons_self, rfl⟩
      · obtain ⟨y, hy, he⟩ := ih h
        exact ⟨y, List.mem_cons_of_mem raw hy, he⟩

theorem ne_nil_of_mem_distinctNamesFrom {seen names : List Text} {x : Text}
    (h : x ∈ distinctNamesFrom seen names) : x ≠ [] := by
  induction names generalizing seen with
  | nil => simp [distinctNamesFrom] at h
  | cons raw rest ih =>
    rw [distinctNamesFrom_cons] at h
    split at h
    next => exact ih h
    next new =>
      rcases List.mem_cons.mp h with rfl | h
      · simp only [Bool.or_eq_true, List.isEmpty_iff, not_or] at new
        exact new.1
      · exact ih h

theorem distinctNamesFrom_distinctNamesFrom {before seen : List Text} (h : before ⊆ seen)
    (names : List Text) :
    distinctNamesFrom seen (distinctNamesFrom before names) = distinctNamesFrom seen names := by
  induction names generalizing before seen with
  | nil => rfl
  | cons raw rest ih =>
    have key : nameKey (trim raw) = nameKey raw := by rw [nameKey, trim_trim, nameKey]
    rw [distinctNamesFrom_cons before, distinctNamesFrom_cons seen]
    by_cases blank : trim raw = []
    · simp [blank, ih h]
    by_cases old : nameKey raw ∈ before
    · simp [old, h old, ih h]
    by_cases new : nameKey raw ∈ seen
    · have known : nameKey raw :: before ⊆ seen := List.cons_subset.mpr ⟨new, h⟩
      simp [blank, old, new, distinctNamesFrom_cons, key, ih known]
    · have grown : nameKey raw :: before ⊆ nameKey raw :: seen := List.cons_subset_cons _ h
      simp [blank, old, new, distinctNamesFrom_cons, key, ih grown]

theorem distinctNamesFrom_append (seen front back : List Text) :
    distinctNamesFrom seen (front ++ back) = distinctNamesFrom seen front ++
      distinctNamesFrom (((distinctNamesFrom seen front).map lower).reverse ++ seen) back := by
  induction front generalizing seen with
  | nil => rfl
  | cons raw front ih =>
    rw [List.cons_append, distinctNamesFrom_cons, distinctNamesFrom_cons]
    split
    next => exact ih seen
    next =>
      rw [ih]
      simp [nameKey]

theorem nameKey_eq_nil_iff {t : Text} : nameKey t = [] ↔ trim t = [] := by
  constructor
  · intro blank
    have short := length_le_lower (trim t)
    rw [← nameKey, blank] at short
    exact List.eq_nil_of_length_eq_zero (Nat.le_zero.mp short)
  · intro blank
    rw [nameKey, blank]
    rfl

theorem distinctNamesFrom_append_of_known {seen known : List Text}
    (h : ∀ x ∈ known, trim x = [] ∨ nameKey x ∈ seen) (back : List Text) :
    distinctNamesFrom seen (known ++ back) = distinctNamesFrom seen back := by
  induction known with
  | nil => rfl
  | cons x known ih =>
    have idle : ((trim x).isEmpty || seen.contains (nameKey x)) = true := by
      simpa using h x List.mem_cons_self
    rw [List.cons_append, distinctNamesFrom_cons, if_pos idle,
      ih fun y hy => h y (List.mem_cons_of_mem x hy)]

theorem nameKey_mem_of_mem {seen names : List Text} {x : Text} (hx : x ∈ names)
    (content : trim x ≠ []) :
    nameKey x ∈ seen ∨ nameKey x ∈ (distinctNamesFrom seen names).map lower := by
  induction names generalizing seen with
  | nil => cases hx
  | cons raw rest ih =>
    rw [distinctNamesFrom_cons]
    split
    next idle =>
      rcases List.mem_cons.mp hx with rfl | later
      · exact .inl (by simpa [content] using idle)
      · exact ih later
    next =>
      rcases List.mem_cons.mp hx with rfl | later
      · exact .inr List.mem_cons_self
      · have kept : nameKey x ∈ nameKey raw :: seen ∨ _ := ih later
        simp only [List.mem_cons] at kept
        rcases kept with (same | old) | kept
        · rw [same]
          exact .inr List.mem_cons_self
        · exact .inl old
        · exact .inr (List.mem_cons_of_mem _ kept)

theorem distinctNames_append_of_known {front known : List Text}
    (h : ∀ x ∈ known, ∃ y ∈ front, nameKey y = nameKey x) (back : List Text) :
    distinctNames (front ++ (known ++ back)) = distinctNames (front ++ back) := by
  rw [distinctNames, distinctNamesFrom_append, distinctNamesFrom_append_of_known, distinctNames,
    distinctNamesFrom_append]
  intro x hx
  obtain ⟨y, hy, same⟩ := h x hx
  by_cases blank : trim x = []
  · exact .inl blank
  · have content : trim y ≠ [] := by
      rwa [ne_eq, ← nameKey_eq_nil_iff, same, nameKey_eq_nil_iff]
    have kept : nameKey y ∈ [] ∨ _ := nameKey_mem_of_mem hy content
    right
    simpa [same] using kept

theorem distinctNames_append_distinctNames (front back : List Text) :
    distinctNames (front ++ distinctNames back) = distinctNames (front ++ back) := by
  rw [distinctNames, distinctNamesFrom_append, distinctNames,
    distinctNamesFrom_distinctNamesFrom (List.nil_subset _), ← distinctNamesFrom_append,
    distinctNames]

theorem distinctNames_distinctNames_append (front back : List Text) :
    distinctNames (distinctNames front ++ back) = distinctNames (front ++ back) := by
  rw [distinctNames, distinctNamesFrom_append, distinctNames,
    distinctNamesFrom_distinctNamesFrom (List.Subset.refl _), ← distinctNamesFrom_append,
    distinctNames]

/-- The trimmed names that are not blank; of those that differ in letter case alone, the first. -/
def firstSpellings (names : List Text) : List Text :=
  ((names.map trim).filter (!·.isEmpty)).eraseDupsBy fun a b => lower a == lower b

theorem distinctNamesFrom_eq_eraseDupsBy (seen names : List Text) :
    distinctNamesFrom seen names = ((names.map trim).filter fun x =>
      !x.isEmpty && !seen.contains (lower x)).eraseDupsBy fun a b => lower a == lower b := by
  induction names generalizing seen with
  | nil => rfl
  | cons raw rest ih =>
    rw [distinctNamesFrom_cons, List.map_cons, List.filter_cons]
    have idle : (!(trim raw).isEmpty && !seen.contains (lower (trim raw))) =
        !((trim raw).isEmpty || seen.contains (nameKey raw)) := by simp [nameKey]
    rw [idle]
    cases (trim raw).isEmpty || seen.contains (nameKey raw) with
    | true => exact ih seen
    | false =>
      simp only [Bool.not_false, if_true, Bool.false_eq_true, if_false]
      rw [List.eraseDupsBy_cons, List.filter_filter, ih]
      congr 2
      apply List.filter_congr
      intro x _
      rw [List.contains_cons, nameKey]
      cases lower x == lower (trim raw) <;> simp

theorem distinctNames_eq_firstSpellings (names : List Text) :
    distinctNames names = firstSpellings names := by
  rw [distinctNames, distinctNamesFrom_eq_eraseDupsBy, firstSpellings]
  simp

namespace Team

variable {α : Type}

theorem nameKey_eq_of_mem_aliases {p : Team α} {name : Text} (hn : name ∈ p.aliases) :
    nameKey name = lower name := by
  obtain ⟨raw, _, rfl⟩ := mem_distinctNamesFrom hn
  rw [nameKey, trim_trim]

theorem aliases_mergeInto {p known : Team α} (named : trim known.name ≠ [])
    (same : nameKey p.name = nameKey known.name) : (p.mergeInto known).aliases =
      known.aliases ++
        distinctNamesFrom (known.aliases.map lower).reverse p.abbreviations := by
  have filled : known.name ≠ [] := by
    intro blank
    exact named (by rw [blank]; rfl)
  have name : (p.mergeInto known).name = known.name := by simp [mergeInto, filled]
  let own := [known.name, p.name]
  have known_own : ∀ x ∈ own, ∃ y ∈ [known.name], nameKey y = nameKey x := by
    simp [own, same]
  calc (p.mergeInto known).aliases
      = distinctNames ([known.name] ++ distinctNames
          (own ++ (known.abbreviations ++ p.abbreviations))) := by
        rw [aliases, name, ← List.append_assoc]
        rfl
    _ = distinctNames ([known.name] ++ (known.abbreviations ++ p.abbreviations)) := by
        rw [distinctNames_append_distinctNames, distinctNames_append_of_known known_own]
    _ = distinctNames ((known.name :: known.abbreviations) ++ p.abbreviations) := rfl
    _ = known.aliases ++
          distinctNamesFrom (known.aliases.map lower).reverse p.abbreviations := by
        rw [distinctNames, distinctNamesFrom_append, List.append_nil, aliases, distinctNames]

end Team

end Wager
