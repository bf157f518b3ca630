import Wager.Proofs.Team.Dictionary
import Wager.Proofs.Team.Names
import Wager.Team.Scan

/-!
# Names found in a text

Every name that a scan finds is an alias of one of the teams that its dictionary was made of.  Where
no alias begins, nothing is found.
-/

namespace Wager

open Text

namespace AliasDictionary

theorem distinctFrom_sublist (seen : List Text) (entries : List TeamAlias) :
    (distinctFrom seen entries).Sublist entries := by
  induction entries generalizing seen with
  | nil => exact List.Sublist.slnil
  | cons e entries ih =>
    rw [distinctFrom]
    split
    · exact (ih seen).cons e
    · exact (ih (e.lowered :: seen)).cons_cons e

theorem mem_of_mem_ofAliases {entries : List TeamAlias} {e : TeamAlias}
    (he : e ∈ ofAliases entries) : e ∈ entries :=
  List.mem_mergeSort.mp ((distinctFrom_sublist _ _).subset he)

theorem exists_mem_ofAliases {entries : List TeamAlias} {e : TeamAlias} (he : e ∈ entries) :
    ∃ kept ∈ ofAliases entries, kept.lowered = e.lowered := by
  have known : ((ofAliases entries).find? (·.lowered == e.lowered)).isSome = true := by
    rw [ofAliases, find?_distinctFrom List.not_mem_nil, List.find?_isSome]
    exact ⟨e, List.mem_mergeSort.mpr he, beq_self_eq_true _⟩
  obtain ⟨kept, hk, same⟩ := List.find?_isSome.mp known
  exact ⟨kept, hk, by simpa using same⟩

variable {α : Type}

theorem mem_ofTeams {teams : List (Team α)} {e : TeamAlias} (he : e ∈ ofTeams teams) :
    ∃ p ∈ teams, e ∈ TeamAlias.ofTeam p :=
  List.mem_flatMap.mp (mem_of_mem_ofAliases he)

end AliasDictionary

theorem Text.lowerInPlace_eq_self {marks t : Text} (small : lowerInPlace marks = marks)
    (within : t ⊆ marks) : lowerInPlace t = t := by
  have each := List.map_inj_left.mp (small.trans (List.map_id marks).symm)
  exact (List.map_congr_left fun c hc => each c (within hc)).trans (List.map_id t)

namespace Scan

variable {dictionary : List TeamAlias}

theorem of_entryAt? {before : Option Char} {rest low : Text} {e : TeamAlias}
    (h : entryAt? dictionary before rest low = some e) :
    e ∈ dictionary ∧ accepts e before rest low = true :=
  ⟨List.mem_of_find?_eq_some h, List.find?_some (p := fun e => accepts e before rest low) h⟩

theorem head?_of_accepts {e : TeamAlias} {before : Option Char} {rest low : Text}
    (h : accepts e before rest low = true) :
    ∃ c, e.lowered.head? = some c ∧ low.head? = some c := by
  simp only [accepts, Bool.and_eq_true, Bool.not_eq_true', List.isEmpty_eq_false_iff] at h
  obtain ⟨⟨⟨front, nonempty⟩, -⟩, -⟩ := h
  obtain ⟨c, tail, lowered⟩ := List.exists_cons_of_ne_nil nonempty
  obtain ⟨behind, rfl⟩ := List.isPrefixOf_iff_prefix.mp front
  exact ⟨c, by rw [lowered, List.head?_cons], by rw [lowered, List.cons_append, List.head?_cons]⟩

theorem entryAt?_of_unique {e : TeamAlias} {before : Option Char} {rest low : Text}
    (member : e ∈ dictionary) (accepted : accepts e before rest low = true)
    (unique : ∀ x ∈ dictionary, x.lowered.head? = low.head? → x = e) :
    entryAt? dictionary before rest low = some e := by
  have found : (entryAt? dictionary before rest low).isSome = true :=
    List.find?_isSome.mpr ⟨e, member, accepted⟩
  obtain ⟨x, hx⟩ := Option.isSome_iff_exists.mp found
  obtain ⟨listed, fits⟩ := of_entryAt? hx
  obtain ⟨c, head, same⟩ := head?_of_accepts fits
  rw [hx, unique x listed (head.trans same.symm)]

theorem hitsFrom_eq_nil {pos skip : Nat} {before : Option Char} {t low : Text}
    (free : ∀ c ∈ low.drop skip, ∀ e ∈ dictionary, e.lowered.head? ≠ some c) :
    hitsFrom dictionary pos skip before t low = [] := by
  fun_induction hitsFrom dictionary pos skip before t low with
  | case1 pos before c rest l low skip ih => exact ih free
  | case2 pos before c rest l low e found ih =>
    obtain ⟨member, accepted⟩ := of_entryAt? found
    obtain ⟨first, head, same⟩ := head?_of_accepts accepted
    obtain rfl : l = first := Option.some.inj same
    exact absurd head (free l List.mem_cons_self e member)
  | case3 pos before c rest l low none ih =>
    exact ih fun x hx => free x (List.mem_cons_of_mem l hx)
  | case4 => rfl

theorem teamNames_of_front {e : TeamAlias} {c : Char} {rest : Text}
    (front : entryAt? dictionary none (c :: rest) (lowerInPlace (c :: rest)) = some e)
    (free : ∀ x ∈ (lowerInPlace rest).drop (e.length - 1),
      ∀ e ∈ dictionary, e.lowered.head? ≠ some x) :
    teamNames (c :: rest) dictionary = [⟨e.teamId, e.teamName, e.name, 0, e.length⟩] := by
  obtain ⟨l, lowered⟩ : ∃ l, lowerInPlace (c :: rest) = l :: lowerInPlace rest := ⟨_, rfl⟩
  rw [teamNames, lowered, hitsFrom, ← lowered, front]
  dsimp only
  rw [hitsFrom_eq_nil free, Nat.zero_add]

end Scan

end Wager
