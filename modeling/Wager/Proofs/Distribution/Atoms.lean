import Wager.Proofs.Distribution.Weights

/-!
# The weights of the atoms

Every entry spreads its implied probability over the atoms it covers.  The atoms met that way are
distinct, they are exactly the covered ones, and their weights are positive with sum one.
-/

namespace Wager

section Keys

variable {α : Type} [Scalar α]

/-- What an entry adds to the atoms it covers: equal parts of its implied probability. -/
def CoveringEntry.contributions (d : CoveringEntry α) : List (Atom × α) :=
  d.atoms.map fun a => (a, d.implied / Scalar.ofNat (Nat.max 1 d.atoms.length))

namespace MatchDistribution

theorem addShare_eq (shares : List (Atom × α)) (a : Atom) (share : α) :
    addShare shares a share =
      Keyed.update Prod.fst a (fun p => (p.1, p.2 + share)) (a, 0.0 + share) shares := rfl

theorem addShare_nodup {shares : List (Atom × α)} (a : Atom) (share : α)
    (h : (shares.map Prod.fst).Nodup) : ((addShare shares a share).map Prod.fst).Nodup := by
  rw [addShare_eq]
  exact Keyed.nodup_update (fun _ => rfl) rfl h

theorem mem_addShare (shares : List (Atom × α)) (a b : Atom) (share : α) :
    b ∈ (addShare shares a share).map Prod.fst ↔ b ∈ shares.map Prod.fst ∨ b = a := by
  rw [addShare_eq]
  exact Keyed.mem_map_key_update (fun _ => rfl) rfl

def addShares (shares contributions : List (Atom × α)) : List (Atom × α) :=
  contributions.foldl (fun shares c => addShare shares c.1 c.2) shares

theorem addShares_cons (shares : List (Atom × α)) (c : Atom × α) (cs : List (Atom × α)) :
    addShares shares (c :: cs) = addShares (addShare shares c.1 c.2) cs := rfl

theorem addShares_nodup {shares : List (Atom × α)} (cs : List (Atom × α))
    (h : (shares.map Prod.fst).Nodup) : ((addShares shares cs).map Prod.fst).Nodup := by
  induction cs generalizing shares with
  | nil => exact h
  | cons c cs ih => exact ih (addShare_nodup c.1 c.2 h)

theorem mem_addShares (shares cs : List (Atom × α)) (a : Atom) :
    a ∈ (addShares shares cs).map Prod.fst ↔
      a ∈ shares.map Prod.fst ∨ a ∈ cs.map Prod.fst := by
  induction cs generalizing shares with
  | nil => simp [addShares]
  | cons c cs ih =>
    rw [addShares_cons, ih, mem_addShare, or_assoc, List.map_cons, List.mem_cons]

theorem atomShares_eq (covering : List (CoveringEntry α)) :
    atomShares covering = addShares [] (covering.flatMap CoveringEntry.contributions) := by
  simp only [atomShares, addShares, List.foldl_flatMap, CoveringEntry.contributions,
    List.foldl_map]

theorem atomShares_nodup (covering : List (CoveringEntry α)) :
    ((atomShares covering).map Prod.fst).Nodup := by
  rw [atomShares_eq]
  exact addShares_nodup _ (by simp)

theorem mem_atomShares (covering : List (CoveringEntry α)) (a : Atom) :
    a ∈ (atomShares covering).map Prod.fst ↔ ∃ d ∈ covering, a ∈ d.atoms := by
  rw [atomShares_eq, mem_addShares]
  simp [CoveringEntry.contributions]

theorem map_fst_atomWeights (covering : List (CoveringEntry α)) :
    (atomWeights covering).map Prod.fst = (atomShares covering).map Prod.fst := by
  unfold atomWeights
  dsimp only
  split
  · rw [List.map_map]
    rfl
  · rw [List.map_map]
    rfl

theorem atomWeights_nodup (covering : List (CoveringEntry α)) :
    ((atomWeights covering).map Prod.fst).Nodup := by
  rw [map_fst_atomWeights]
  exact atomShares_nodup covering

theorem mem_atomWeights (covering : List (CoveringEntry α)) (a : Atom) :
    a ∈ (atomWeights covering).map Prod.fst ↔ ∃ d ∈ covering, a ∈ d.atoms := by
  rw [map_fst_atomWeights]
  exact mem_atomShares covering a

end MatchDistribution

end Keys

variable {α : Type} [ExactScalar α]

namespace CoveringEntry

theorem implied_pos (d : CoveringEntry α) : 0 < d.implied :=
  Odds.negligible_pos.trans (Odds.negligible_lt_implied d.odds)

theorem contributions_pos (d : CoveringEntry α) : ∀ c ∈ d.contributions, 0 < c.2 := by
  intro c hc
  obtain ⟨a, _, rfl⟩ := List.mem_map.mp hc
  have hn : (0 : α) < (Nat.max 1 d.atoms.length : Nat) := by
    exact_mod_cast Nat.le_max_left 1 d.atoms.length
  rw [Scalar.ofNat_eq]
  exact div_pos d.implied_pos hn

theorem contributions_sum (d : CoveringEntry α) (h : d.atoms ≠ []) :
    (d.contributions.map (·.2)).sum = d.implied := by
  have hpos : 0 < d.atoms.length := List.length_pos_iff.mpr h
  have hmax : Nat.max 1 d.atoms.length = d.atoms.length := Nat.max_eq_right hpos
  have hne : (d.atoms.length : α) ≠ 0 := by exact_mod_cast hpos.ne'
  simp only [contributions, List.map_map, Function.comp_def, hmax, Scalar.ofNat_eq,
    List.map_const', List.sum_replicate, nsmul_eq_mul]
  field_simp

end CoveringEntry

namespace MatchDistribution

theorem addShare_sum {shares : List (Atom × α)} (a : Atom) (share : α)
    (h : (shares.map Prod.fst).Nodup) :
    ((addShare shares a share).map (·.2)).sum = (shares.map (·.2)).sum + share := by
  rw [addShare_eq, Scalar.zero_literal, zero_add]
  exact Keyed.sum_update h (fun _ _ _ => rfl) rfl

theorem addShare_pos {shares : List (Atom × α)} (a : Atom) {share : α}
    (hs : ∀ p ∈ shares, 0 < p.2) (h : 0 < share) : ∀ p ∈ addShare shares a share, 0 < p.2 := by
  rw [addShare_eq, Scalar.zero_literal, zero_add]
  intro p hp
  rcases Keyed.mem_update hp with hp | ⟨q, hq, _, rfl⟩ | rfl
  · exact hs p hp
  · exact add_pos (hs q hq) h
  · exact h

theorem addShares_sum {shares : List (Atom × α)} (cs : List (Atom × α))
    (h : (shares.map Prod.fst).Nodup) :
    ((addShares shares cs).map (·.2)).sum = (shares.map (·.2)).sum + (cs.map (·.2)).sum := by
  induction cs generalizing shares with
  | nil => simp [addShares]
  | cons c cs ih =>
    rw [addShares_cons, ih (addShare_nodup c.1 c.2 h), addShare_sum c.1 c.2 h, add_assoc,
      List.map_cons, List.sum_cons]

theorem addShares_pos {shares cs : List (Atom × α)} (hs : ∀ p ∈ shares, 0 < p.2)
    (hc : ∀ c ∈ cs, 0 < c.2) : ∀ p ∈ addShares shares cs, 0 < p.2 := by
  induction cs generalizing shares with
  | nil => exact hs
  | cons c cs ih =>
    rw [addShares_cons]
    exact ih (addShare_pos c.1 hs (hc c (by simp))) (fun e he => hc e (List.mem_cons_of_mem c he))

theorem atomShares_pos (covering : List (CoveringEntry α)) :
    ∀ p ∈ atomShares covering, 0 < p.2 := by
  rw [atomShares_eq]
  apply addShares_pos (by simp)
  intro c hc
  obtain ⟨d, _, hm⟩ := List.mem_flatMap.mp hc
  exact d.contributions_pos c hm

theorem atomShares_sum (covering : List (CoveringEntry α)) (h : ∀ d ∈ covering, d.atoms ≠ []) :
    ((atomShares covering).map (·.2)).sum = (covering.map CoveringEntry.implied).sum := by
  rw [atomShares_eq, addShares_sum _ (by simp), List.map_nil, List.sum_nil, zero_add]
  induction covering with
  | nil => rfl
  | cons d ds ih =>
    rw [List.flatMap_cons, List.map_append, List.sum_append, d.contributions_sum (h d (by simp)),
      ih (fun e he => h e (List.mem_cons_of_mem d he)), List.map_cons, List.sum_cons]

theorem negligible_lt_atomShares_sum {covering : List (CoveringEntry α)} (hne : covering ≠ [])
    (h : ∀ d ∈ covering, d.atoms ≠ []) :
    Odds.negligible < ((atomShares covering).map (·.2)).sum := by
  rw [atomShares_sum covering h]
  obtain ⟨d, ds, rfl⟩ := List.exists_cons_of_ne_nil hne
  have rest : 0 ≤ (ds.map CoveringEntry.implied).sum := by
    apply List.sum_nonneg
    intro x hx
    obtain ⟨e, _, rfl⟩ := List.mem_map.mp hx
    exact e.implied_pos.le
  rw [List.map_cons, List.sum_cons]
  exact (Odds.negligible_lt_implied d.odds).trans_le (le_add_of_nonneg_right rest)

/-- Equal weights are never needed: an atom's weight is its part of all shares. -/
theorem atomWeights_eq {covering : List (CoveringEntry α)} (hne : covering ≠ [])
    (h : ∀ d ∈ covering, d.atoms ≠ []) : atomWeights covering =
      (atomShares covering).map fun p => (p.1, p.2 / ((atomShares covering).map (·.2)).sum) := by
  have hsum := negligible_lt_atomShares_sum hne h
  rw [← Scalar.sum_eq] at hsum ⊢
  exact if_neg (not_le.mpr hsum)

theorem atomWeights_pos {covering : List (CoveringEntry α)} (hne : covering ≠ [])
    (h : ∀ d ∈ covering, d.atoms ≠ []) : ∀ p ∈ atomWeights covering, 0 < p.2 := by
  have hsum := Odds.negligible_pos.trans (negligible_lt_atomShares_sum hne h)
  rw [atomWeights_eq hne h]
  intro p hp
  obtain ⟨q, hq, rfl⟩ := List.mem_map.mp hp
  exact div_pos (atomShares_pos covering q hq) hsum

theorem atomWeights_sum {covering : List (CoveringEntry α)} (hne : covering ≠ [])
    (h : ∀ d ∈ covering, d.atoms ≠ []) : ((atomWeights covering).map (·.2)).sum = 1 := by
  have hsum := Odds.negligible_pos.trans (negligible_lt_atomShares_sum hne h)
  rw [atomWeights_eq hne h, List.map_map]
  have total := sum_map_div ((atomShares covering).map (·.2)) hsum
  rwa [List.map_map] at total

end MatchDistribution

end Wager
