import Mathlib

/-!
# Lists in order

First appearances in a list, and sorting that keeps the order of what it does not tell apart.
-/

namespace Wager

section

variable {β : Type} [BEq β] [LawfulBEq β]

theorem eraseDups_concat (l : List β) (x : β) :
    (l ++ [x]).eraseDups = if x ∈ l then l.eraseDups else l.eraseDups ++ [x] := by
  rw [List.eraseDups_append, List.removeAll]
  split
  next old => rw [List.filter_cons_of_neg (by simpa using old), List.filter_nil]; simp
  next new => rw [List.filter_cons_of_pos (by simpa using new), List.filter_nil]; rfl

theorem nodup_eraseDups (l : List β) : l.eraseDups.Nodup := by
  induction l using List.reverseRecOn with
  | nil => simp
  | append_singleton l x ih =>
    rw [eraseDups_concat]
    split
    · exact ih
    next new =>
      have other : ∀ y ∈ l, y ≠ x := fun y hy same => new (same ▸ hy)
      simpa [List.nodup_append, ih] using other

theorem eraseDups_of_nodup {l : List β} (distinct : l.Nodup) : l.eraseDups = l := by
  induction l using List.reverseRecOn with
  | nil => rfl
  | append_singleton l x ih =>
    have new : x ∉ l := fun hx => (List.nodup_append.mp distinct).2.2 x hx x (by simp) rfl
    rw [eraseDups_concat, if_neg new, ih (List.nodup_append.mp distinct).1]

theorem eraseDups_removeAll_cons {seen l : List β} {x : β} (new : x ∉ seen) :
    ((x :: l).removeAll seen).eraseDups = x :: (l.removeAll (seen ++ [x])).eraseDups := by
  have head : (x :: l).removeAll seen = x :: l.removeAll seen := by simp [List.removeAll, new]
  have later : (l.removeAll seen).filter (fun y => !y == x) = l.removeAll (seen ++ [x]) := by
    rw [List.removeAll, List.filter_filter, List.removeAll]
    apply List.filter_congr
    intro y _
    by_cases same : y = x <;> simp [same]
  rw [head, List.eraseDups_cons, later]

theorem eraseDups_append_of_prefix {front l : List β} (distinct : l.Nodup) (h : front <+: l) :
    (front ++ l).eraseDups = l := by
  obtain ⟨back, rfl⟩ := h
  obtain ⟨front_distinct, back_distinct, apart⟩ := List.nodup_append.mp distinct
  have rest : (front ++ back).removeAll front = back := by
    have old : front.filter (fun x => !front.elem x) = [] := by simp
    have new : back.filter (fun x => !front.elem x) = back := by
      rw [List.filter_eq_self]
      intro x hx
      simpa using fun hf => apart x hf x hx rfl
    rw [List.removeAll, List.filter_append, old, new, List.nil_append]
  rw [List.eraseDups_append, rest, eraseDups_of_nodup front_distinct,
    eraseDups_of_nodup back_distinct]

variable {γ : Type} {g : γ → β} {R : γ → γ → Prop} {l : List γ}

/-- Whether `x` stands in front of all else in a list that `g` takes to `m`. -/
structure FirstWith (g : γ → β) (R : γ → γ → Prop) (l : List γ) (m : β) (x : γ) : Prop where
  mem : x ∈ l
  value : g x = m
  least : ∀ y ∈ l, g y = m → x = y ∨ R x y

omit [BEq β] [LawfulBEq β] in
theorem FirstWith.concat {m : β} {x y : γ} (h : FirstWith g R l m x) (after : R x y) :
    FirstWith g R (l ++ [y]) m x := by
  refine ⟨List.mem_append_left _ h.mem, h.value, fun z hz same => ?_⟩
  rcases List.mem_append.mp hz with hz | hz
  · exact h.least z hz same
  · obtain rfl := List.mem_singleton.mp hz
    exact .inr after

omit [BEq β] [LawfulBEq β] in
theorem exists_firstWith (ordered : l.Pairwise R) {m : β} (hm : m ∈ l.map g) :
    ∃ x, FirstWith g R l m x := by
  induction l with
  | nil => cases hm
  | cons x l ih =>
    obtain ⟨first, others⟩ := List.pairwise_cons.mp ordered
    by_cases hx : g x = m
    · exact ⟨x, List.mem_cons_self, hx, fun y hy _ =>
        (List.mem_cons.mp hy).imp Eq.symm (first y)⟩
    · have later : m ∈ l.map g := by simpa [Ne.symm hx] using hm
      obtain ⟨y, hy⟩ := ih others later
      refine ⟨y, List.mem_cons_of_mem x hy.mem, hy.value, fun z hz same => ?_⟩
      rcases List.mem_cons.mp hz with rfl | hz
      · exact absurd same hx
      · exact hy.least z hz same

/-- The values of an ordered list, each once, are in the order of their first elements. -/
theorem pairwise_eraseDups_map (ordered : l.Pairwise R) :
    (l.map g).eraseDups.Pairwise fun m n =>
      ∃ x y, FirstWith g R l m x ∧ FirstWith g R l n y ∧ R x y := by
  induction l using List.reverseRecOn with
  | nil => simp
  | append_singleton l y ih =>
    obtain ⟨front, -, across⟩ := List.pairwise_append.mp ordered
    have after {x : γ} (hx : x ∈ l) : R x y := across x hx y List.mem_cons_self
    have kept : (l.map g).eraseDups.Pairwise fun m n =>
        ∃ x z, FirstWith g R (l ++ [y]) m x ∧ FirstWith g R (l ++ [y]) n z ∧ R x z := by
      refine (ih front).imp fun ⟨x, z, hx, hz, before⟩ => ?_
      exact ⟨x, z, hx.concat (after hx.mem), hz.concat (after hz.mem), before⟩
    rw [List.map_append, List.map_singleton, eraseDups_concat]
    split
    · exact kept
    next new =>
      -- A new value comes last, and nothing in front has it.
      have last : FirstWith g R (l ++ [y]) (g y) y := by
        refine ⟨by simp, rfl, fun z hz same => ?_⟩
        rcases List.mem_append.mp hz with hz | hz
        · exact absurd (same ▸ List.mem_map_of_mem hz) new
        · exact .inl (List.mem_singleton.mp hz).symm
      refine List.pairwise_append.mpr ⟨kept, List.pairwise_singleton _ _, fun m hm n hn => ?_⟩
      obtain rfl := List.mem_singleton.mp hn
      obtain ⟨x, hx⟩ := exists_firstWith front (List.mem_eraseDups.mp hm)
      exact ⟨x, y, hx.concat (after hx.mem), last, after hx.mem⟩

end

theorem pairwise_zipIdx {β : Type} (l : List β) : l.zipIdx.Pairwise fun a b => a.2 < b.2 := by
  rw [← List.pairwise_map (f := Prod.snd), List.zipIdx_map_snd]
  exact List.pairwise_lt_range'

theorem mergeSort_congr {β : Type} {le le' : β → β → Bool} {l : List β}
    (same : ∀ a ∈ l, ∀ b ∈ l, le a b = le' a b) : l.mergeSort le = l.mergeSort le' := by
  simpa using List.map_mergeSort (f := id) same

theorem pairwise_mergeSort_of_pairwise {β : Type} {le : β → β → Bool} {R : β → β → Prop}
    (trans : ∀ a b c, le a b = true → le b c = true → le a c = true)
    (total : ∀ a b, (le a b || le b a) = true) {l : List β} (ordered : l.Pairwise R) :
    (l.mergeSort le).Pairwise fun a b => le a b = true ∧ (le b a = true → R a b) := by
  induction l with
  | nil => simp
  | cons a l ih =>
    obtain ⟨first, others⟩ := List.pairwise_cons.mp ordered
    obtain ⟨l₁, l₂, sorted, rest, larger⟩ := List.mergeSort_cons trans total a l
    have kept := ih others
    have smaller := List.pairwise_mergeSort trans total (a :: l)
    rw [rest] at kept
    rw [sorted] at smaller ⊢
    obtain ⟨front, back, across⟩ := List.pairwise_append.mp kept
    have behind := (List.pairwise_cons.mp (List.pairwise_append.mp smaller).2.1).1
    refine List.pairwise_append.mpr ⟨front, List.pairwise_cons.mpr ⟨?_, back⟩, ?_⟩
    · intro b hb
      have member : b ∈ l := List.mem_mergeSort.mp (rest ▸ List.mem_append_right l₁ hb)
      exact ⟨behind b hb, fun _ => first b member⟩
    · intro x hx b hb
      rcases List.mem_cons.mp hb with rfl | hb
      -- What stands in front of the new element is strictly smaller.
      · have strict : le b x = false := by simpa using larger x hx
        have below := total x b
        rw [strict, Bool.or_false] at below
        exact ⟨below, fun ge => by simp [strict] at ge⟩
      · exact across x hx b hb

/-- In a sorted list, an element is met first if no earlier one of the unsorted list is as small. -/
theorem find?_mergeSort {β : Type} {le : β → β → Bool} {p : β → Bool}
    (trans : ∀ a b c, le a b = true → le b c = true → le a c = true)
    (total : ∀ a b, (le a b || le b a) = true) {front back : List β} {e : β} (he : p e = true)
    (least : ∀ x ∈ back, p x = true → le e x = true)
    (before : ∀ x ∈ front, p x = true → le x e = false) :
    ((front ++ e :: back).mergeSort le).find? p = some e := by
  induction front with
  | nil =>
    obtain ⟨l₁, l₂, sorted, rest, larger⟩ := List.mergeSort_cons trans total e back
    have none : l₁.find? p = none := by
      rw [List.find?_eq_none]
      intro x hx hp
      have member : x ∈ back := by
        apply List.mem_mergeSort.mp
        rw [rest]
        exact List.mem_append_left l₂ hx
      simpa [least x member hp] using larger x hx
    rw [List.nil_append, sorted, List.find?_append, none, List.find?_cons, he]
    rfl
  | cons a front ih =>
    obtain ⟨l₁, l₂, sorted, rest, larger⟩ :=
      List.mergeSort_cons trans total a (front ++ e :: back)
    have found := ih fun x hx => before x (List.mem_cons_of_mem a hx)
    rw [List.cons_append, sorted]
    rw [rest, List.find?_append] at found
    rw [List.find?_append, List.find?_cons]
    cases ha : p a with
    | false => simpa [ha] using found
    | true =>
      -- The new element is larger, so the old one stands in front of it.
      cases first : l₁.find? p with
      | some x => simpa [first] using found
      | none =>
        have behind : e ∈ l₂ := by
          rw [first, Option.none_or] at found
          exact List.mem_of_find?_eq_some found
        have ordered := List.pairwise_mergeSort trans total (a :: (front ++ e :: back))
        rw [sorted] at ordered
        have smaller : le a e = true :=
          List.rel_of_pairwise_cons (List.pairwise_append.mp ordered).2.1 behind
        simp [before a List.mem_cons_self ha] at smaller

end Wager
