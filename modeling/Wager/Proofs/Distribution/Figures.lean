import Wager.Proofs.Distribution.Match

/-!
# The figures of a match

Apart from what its states are called, a distribution is told by what its entries back: some atoms,
at some odds, with a part of the stake.  Every atom gathers mass and payout from the entries that
back it, and neither depends on the order of the entries.
-/

namespace Wager

variable {α : Type} [ExactScalar α]

def State.figures {ι α : Type} (s : State ι α) : α × α × Bool := (s.probability, s.gross, s.isMiss)

def State.ofFigures {α : Type} (f : α × α × Bool) : State Unit α := ⟨(), [], f.1, f.2.1, f.2.2⟩

theorem Statistics.ofStates_congr {ι κ : Type} {states : List (State ι α)}
    {states' : List (State κ α)}
    (h : (states.map State.figures).Perm (states'.map State.figures)) :
    ofStates states = ofStates states' := by
  have unnamed {ι : Type} (states : List (State ι α)) :
      ofStates ((states.map State.figures).map State.ofFigures) = ofStates states := by
    simp only [ofStates, mass, weightedGross, List.map_map, List.filter_map]
    rfl
  rw [← unnamed states, ← unnamed states', ofStates_perm (h.map _)]

/-- An entry without its name: what it covers, its odds and its part of the stake. -/
structure Backing (α : Type) where
  atoms : List Atom
  odds : α
  weight : α

namespace Backing

open MatchDistribution

def list {α : Type} (covering : List (CoveringEntry α)) (weights : List α) : List (Backing α) :=
  (covering.zip weights).map fun (d, w) => ⟨d.atoms, d.odds, w⟩

def shares (b : Backing α) : List (Atom × α) :=
  b.atoms.map fun a => (a, Odds.implied b.odds / Scalar.ofNat (Nat.max 1 b.atoms.length))

def gathered (backings : List (Backing α)) : List (Atom × α) :=
  addShares [] (backings.flatMap shares)

def payoutOn (backings : List (Backing α)) (a : Atom) : α :=
  (backings.map fun b => if a ∈ b.atoms then b.weight * b.odds else 0).sum

def holdings (backings : List (Backing α)) : List (α × α) :=
  (gathered backings).map fun p => (p.2, payoutOn backings p.1)

section Order

def amount (records : List (Atom × α)) (a : Atom) : α :=
  (records.map fun p => if p.1 = a then p.2 else 0).sum

theorem amount_addShare {records : List (Atom × α)} (h : (records.map Prod.fst).Nodup)
    (a b : Atom) (share : α) :
    amount (addShare records a share) b = amount records b + if a = b then share else 0 := by
  rw [addShare_eq, Scalar.zero_literal, zero_add]
  apply Keyed.sum_update h
  · rintro p - rfl
    by_cases same : p.1 = b <;> simp [same]
  · rfl

theorem amount_addShares {records : List (Atom × α)} (h : (records.map Prod.fst).Nodup)
    (cs : List (Atom × α)) (a : Atom) :
    amount (addShares records cs) a = amount records a + amount cs a := by
  induction cs generalizing records with
  | nil => simp [addShares, amount]
  | cons c cs ih =>
    rw [addShares_cons, ih (addShare_nodup c.1 c.2 h), amount_addShare h, add_assoc]
    simp [amount]

theorem eq_map_amount {records : List (Atom × α)} (h : (records.map Prod.fst).Nodup) :
    records = (records.map Prod.fst).map fun a => (a, amount records a) := by
  rw [List.map_map]
  conv_lhs => rw [← List.map_id' records]
  apply List.map_congr_left
  intro p hp
  have held : amount records p.1 = p.2 := Keyed.sum_map_ite_key h hp Prod.snd
  rw [Function.comp_apply, held]

theorem gathered_perm {backings backings' : List (Backing α)} (h : backings.Perm backings') :
    (gathered backings).Perm (gathered backings') := by
  have shared : (backings.flatMap shares).Perm (backings'.flatMap shares) := h.flatMap_right shares
  have distinct (bs : List (Backing α)) : ((gathered bs).map Prod.fst).Nodup :=
    addShares_nodup _ (by simp)
  have held (a : Atom) : amount (gathered backings) a = amount (gathered backings') a := by
    rw [gathered, gathered, amount_addShares (by simp), amount_addShares (by simp)]
    exact congrArg _ (shared.map _).sum_eq
  have keys : ((gathered backings).map Prod.fst).Perm ((gathered backings').map Prod.fst) := by
    rw [List.perm_ext_iff_of_nodup (distinct _) (distinct _)]
    intro a
    rw [gathered, gathered, mem_addShares, mem_addShares, (shared.map _).mem_iff]
  rw [eq_map_amount (distinct backings), eq_map_amount (distinct backings')]
  simp only [held]
  exact keys.map _

theorem payoutOn_perm {backings backings' : List (Backing α)} (h : backings.Perm backings') :
    payoutOn backings = payoutOn backings' :=
  funext fun _ => (h.map _).sum_eq

theorem holdings_perm {backings backings' : List (Backing α)} (h : backings.Perm backings') :
    (holdings backings).Perm (holdings backings') := by
  rw [holdings, holdings, payoutOn_perm h]
  exact (gathered_perm h).map _

end Order

section Singles

theorem addShares_of_fresh {records cs : List (Atom × α)}
    (h : ((records ++ cs).map Prod.fst).Nodup) : addShares records cs = records ++ cs := by
  induction cs generalizing records with
  | nil => simp [addShares]
  | cons c cs ih =>
    have fresh : c.1 ∉ records.map Prod.fst := by
      rw [List.map_append, List.map_cons] at h
      exact (List.nodup_middle.mp h).notMem ∘ List.mem_append_left _
    have added : addShare records c.1 c.2 = records ++ [c] := by
      rw [addShare_eq, Keyed.update_of_notMem fresh, Scalar.zero_literal, zero_add]
    rw [addShares_cons, added, ih (by simpa using h), List.append_assoc, List.singleton_append]

/-- When every entry covers one atom, and no two the same one, each atom holds what its entry
brings. -/
theorem holdings_of_singles {β : Type} {bets : List β} {atom : β → Atom}
    (distinct : (bets.map atom).Nodup) (odds weight : β → α) :
    holdings (bets.map fun b => ⟨[atom b], odds b, weight b⟩) =
      bets.map fun b => (Odds.implied (odds b), weight b * odds b) := by
  let single (b : β) : Backing α := ⟨[atom b], odds b, weight b⟩
  have brought : (bets.map single).flatMap shares =
      bets.map fun b => (atom b, Odds.implied (odds b)) := by
    have each (b : β) : shares (single b) = [(atom b, Odds.implied (odds b))] := by
      simp [single, shares]
    rw [List.flatMap_map, List.map_eq_flatMap]
    simp only [each]
  have paid : ∀ b ∈ bets, payoutOn (bets.map single) (atom b) = weight b * odds b := by
    intro b hb
    rw [payoutOn, List.map_map, ← Keyed.sum_map_ite_key distinct hb fun b => weight b * odds b]
    simp only [single, Function.comp_def, List.mem_singleton, eq_comm]
  rw [holdings, gathered, brought, addShares_of_fresh, List.nil_append, List.map_map]
  · apply List.map_congr_left
    intro b hb
    rw [Function.comp_apply, paid b hb]
  · simpa [Function.comp_def] using distinct

end Singles

end Backing

namespace MatchDistribution

section

variable {covering : List (CoveringEntry α)} {weights : List α}

theorem atomShares_eq_gathered (full : weights.length = covering.length) :
    atomShares covering = Backing.gathered (Backing.list covering weights) := by
  have entries : (covering.zip weights).map Prod.fst = covering := List.map_fst_zip full.ge
  rw [atomShares_eq, Backing.gathered, Backing.list, List.flatMap_map]
  conv_lhs => rw [← entries, List.flatMap_map]
  rfl

private theorem sum_filterMap_ite {β : Type} (xs : List β) (p : β → Bool) (g : β → α) :
    (xs.filterMap fun x => if p x then some (g x) else none).sum =
      (xs.map fun x => if p x then g x else 0).sum := by
  induction xs with
  | nil => rfl
  | cons x xs ih => by_cases h : p x = true <;> simp [h, ih]

theorem grossOn_eq_payoutOn (a : Atom) :
    grossOn covering weights a = Backing.payoutOn (Backing.list covering weights) a := by
  rw [grossOn, Scalar.sum_eq, Backing.payoutOn, Backing.list, List.map_map]
  refine (sum_filterMap_ite (covering.zip weights) (fun p => p.1.atoms.contains a) fun p =>
    p.2 * p.1.odds).trans ?_
  simp [Function.comp_def]

theorem map_atomShares (full : weights.length = covering.length) :
    (atomShares covering).map (fun p => (p.2, grossOn covering weights p.1)) =
      Backing.holdings (Backing.list covering weights) := by
  simp only [atomShares_eq_gathered full, grossOn_eq_payoutOn]
  rfl

end

/-- The figures of the states: masses and payouts of the atoms, scaled and without the negligible
ones, and the miss. -/
def figuresOf (union : α) (holdings : List (α × α)) : List (α × α × Bool) :=
  let total := (holdings.map (·.1)).sum
  let kept := holdings.filter fun h => decide (Odds.negligible < union * (h.1 / total))
  let retained := union * (kept.map fun h => h.1 / total).sum + (1 - union)
  kept.map (fun h => (union * (h.1 / total) / retained, h.2, false)) ++
    [((1 - union) / retained, 0, true)]

theorem figuresOf_perm {holdings holdings' : List (α × α)} (h : holdings.Perm holdings')
    (union : α) : (figuresOf union holdings).Perm (figuresOf union holdings') := by
  have total := (h.map fun x => x.1).sum_eq
  rw [figuresOf, figuresOf, total]
  have kept := h.filter fun x =>
    decide (Odds.negligible < union * (x.1 / (holdings'.map fun x => x.1).sum))
  have mass := (kept.map fun x => x.1 / (holdings'.map fun x => x.1).sum).sum_eq
  rw [mass]
  exact (kept.map _).append_right _

theorem map_figures_ofCovering {covering : List (CoveringEntry α)} {weights : List α} {union : α}
    (ready : Ready covering weights union) (fallback : α) :
    (ofCovering covering weights union fallback).states.map State.figures =
      figuresOf union (Backing.holdings (Backing.list covering weights)) := by
  have hit (a : Atom) (mass : α) : (hitState covering weights a mass).figures =
      (mass, grossOn covering weights a, false) := rfl
  have miss (mass : α) : (missState mass).figures = (mass, 0, true) := by
    simp [State.figures, missState]
  rw [states_ofCovering ready.sound ready.bounded, ← map_atomShares ready.length_eq, figuresOf]
  simp only [retained, keptAtoms, atomWeights_eq ready.sound.nonempty ready.sound.covers,
    List.map_append, List.map_map, List.filter_map, Function.comp_def, List.map_singleton, hit,
    miss]

end MatchDistribution

end Wager
