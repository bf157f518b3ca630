import Mathlib

/-!
# Accumulating under keys

A list of records with one record for each key, in the order in which the keys came.  Adding to a
key changes its record in place, or appends a record for a new key.
-/

namespace Wager.Keyed

variable {β κ : Type} [BEq κ] [LawfulBEq κ]

/-- Changes the record with key `k`; without one, `fresh` comes last. -/
def update (key : β → κ) (k : κ) (change : β → β) (fresh : β) (records : List β) : List β :=
  if records.any (key · == k) then records.map fun x => if key x == k then change x else x
  else records ++ [fresh]

variable {key : β → κ} {k : κ} {change : β → β} {fresh : β} {records : List β}

private theorem any_key : records.any (key · == k) = true ↔ k ∈ records.map key := by
  simp only [List.any_eq_true, beq_iff_eq, List.mem_map]

theorem update_of_mem (h : k ∈ records.map key) : update key k change fresh records =
    records.map fun x => if key x == k then change x else x := by
  rw [update, if_pos (any_key.mpr h)]

theorem update_of_notMem (h : k ∉ records.map key) :
    update key k change fresh records = records ++ [fresh] := by
  rw [update, if_neg (fun ha => h (any_key.mp ha))]

theorem mem_update {y : β} (hy : y ∈ update key k change fresh records) :
    y ∈ records ∨ (∃ x ∈ records, key x = k ∧ y = change x) ∨ y = fresh := by
  by_cases h : k ∈ records.map key
  · rw [update_of_mem h] at hy
    obtain ⟨x, hx, rfl⟩ := List.mem_map.mp hy
    by_cases hk : key x = k
    · exact .inr (.inl ⟨x, hx, hk, by simp [hk]⟩)
    · exact .inl (by simpa [hk] using hx)
  · rw [update_of_notMem h] at hy
    rcases List.mem_append.mp hy with hy | hy
    · exact .inl hy
    · exact .inr (.inr (List.mem_singleton.mp hy))

theorem map_key_update (hc : ∀ x, key (change x) = key x) (hf : key fresh = k) :
    (update key k change fresh records).map key =
      if k ∈ records.map key then records.map key else records.map key ++ [k] := by
  split
  next h =>
    rw [update_of_mem h, List.map_map]
    apply List.map_congr_left
    intro x _
    by_cases hk : key x = k <;> simp [hk, hc]
  next h => rw [update_of_notMem h, List.map_append, List.map_singleton, hf]

theorem mem_map_key_update {a : κ} (hc : ∀ x, key (change x) = key x) (hf : key fresh = k) :
    a ∈ (update key k change fresh records).map key ↔ a ∈ records.map key ∨ a = k := by
  rw [map_key_update hc hf]
  split
  next h => exact ⟨.inl, fun ha => ha.elim id (fun he => he ▸ h)⟩
  next => rw [List.mem_append, List.mem_singleton]

theorem nodup_update (hc : ∀ x, key (change x) = key x) (hf : key fresh = k)
    (h : (records.map key).Nodup) : ((update key k change fresh records).map key).Nodup := by
  rw [map_key_update hc hf]
  split
  next => exact h
  next hk => exact List.nodup_append.mpr ⟨h, List.nodup_singleton k, by
    intro a ha b hb he
    rw [List.mem_singleton.mp hb] at he
    exact hk (he ▸ ha)⟩

theorem filter_key_eq {x : β} (h : (records.map key).Nodup) (hx : x ∈ records) :
    records.filter (key · == key x) = [x] := by
  induction records with
  | nil => cases hx
  | cons y records ih =>
    obtain ⟨new, distinct⟩ := List.nodup_cons.mp h
    rcases List.mem_cons.mp hx with rfl | later
    · have others : records.filter (key · == key x) = [] := by
        rw [List.filter_eq_nil_iff]
        intro z hz same
        exact new (beq_iff_eq.mp same ▸ List.mem_map_of_mem hz)
      rw [List.filter_cons_of_pos (p := (key · == key x)) (beq_self_eq_true _), others]
    · have other : key y ≠ key x := fun same => new (same ▸ List.mem_map_of_mem later)
      rw [List.filter_cons_of_neg (by simpa using other), ih distinct later]

section

variable {M : Type} [AddCommMonoid M] {f : β → M} {v : M}

private theorem sum_change (h : (records.map key).Nodup) (hk : k ∈ records.map key)
    (hf : ∀ x ∈ records, key x = k → f (change x) = f x + v) :
    ((records.map fun x => if key x == k then change x else x).map f).sum =
      (records.map f).sum + v := by
  induction records with
  | nil => simp at hk
  | cons x xs ih =>
    obtain ⟨hx, hxs⟩ := List.nodup_cons.mp h
    by_cases he : key x = k
    · -- The other records have other keys, so they stay as they are.
      have rest : (xs.map fun y => if key y == k then change y else y) = xs := by
        conv_rhs => rw [← List.map_id' xs]
        apply List.map_congr_left
        intro y hy
        have hne : key y ≠ k := fun hyk => hx (he ▸ hyk ▸ List.mem_map_of_mem hy)
        simp [hne]
      simp only [List.map_cons, he, beq_self_eq_true, if_true, List.sum_cons, rest]
      rw [hf x (by simp) he]
      abel
    · have hk' : k ∈ xs.map key := by simpa [Ne.symm he] using hk
      have tail := ih hxs hk' (fun y hy => hf y (List.mem_cons_of_mem x hy))
      simp only [List.map_cons, beq_eq_false_iff_ne.mpr he, Bool.false_eq_true, if_false,
        List.sum_cons, tail]
      abel

theorem sum_update (h : (records.map key).Nodup)
    (hf : ∀ x ∈ records, key x = k → f (change x) = f x + v) (hv : f fresh = v) :
    ((update key k change fresh records).map f).sum = (records.map f).sum + v := by
  by_cases hk : k ∈ records.map key
  · rw [update_of_mem hk]
    exact sum_change h hk hf
  · rw [update_of_notMem hk, List.map_append, List.sum_append, List.map_singleton,
      List.sum_singleton, hv]

omit [BEq κ] [LawfulBEq κ] in
theorem sum_map_ite_key [DecidableEq κ] (h : (records.map key).Nodup) {x : β} (hx : x ∈ records)
    (g : β → M) : (records.map fun y => if key y = key x then g y else 0).sum = g x := by
  induction records with
  | nil => simp at hx
  | cons y ys ih =>
    obtain ⟨fresh, distinct⟩ := List.nodup_cons.mp h
    rw [List.map_cons, List.sum_cons]
    by_cases he : key y = key x
    · have rest : ∀ z ∈ ys, key z ≠ key x :=
        fun z hz hk => fresh (he ▸ hk ▸ List.mem_map_of_mem hz)
      have this_one : y = x := by
        rcases List.mem_cons.mp hx with front | back
        · exact front.symm
        · exact absurd rfl (rest x back)
      have others : (ys.map fun z => if key z = key x then g z else 0) = ys.map fun _ => 0 :=
        List.map_congr_left fun z hz => if_neg (rest z hz)
      rw [if_pos he, others, this_one]
      simp
    · have later : x ∈ ys := by
        rcases List.mem_cons.mp hx with front | back
        · exact absurd (congrArg key front.symm) he
        · exact back
      rw [if_neg he, zero_add, ih distinct later]

end

end Wager.Keyed
