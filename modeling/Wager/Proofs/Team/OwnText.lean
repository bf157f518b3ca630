import Wager.Proofs.Team.Lookup
import Wager.Proofs.Text.InPlace

/-!
# Aliases in their own text

The text of an alias is read as this alias: no longer one fits there, and no other one of the same
length.  But entries hold their aliases in the lower case of whole texts, and a scan lowers a text
character by character; so an alias is found in its own text only where both are the same.
-/

namespace Wager

open Text

namespace Scan

open AliasDictionary

variable {dictionary : List TeamAlias} {t : Text}

theorem leftmostFrom_teamNames (full : LongestFirst dictionary) (t : Text) :
    LeftmostFrom dictionary t 0 (teamNames t dictionary) := by
  have found : LeftmostFrom dictionary t (0 + 0)
      (hitsFrom dictionary 0 0 none t (lowerInPlace t)) :=
    leftmostFrom_hitsFrom full rfl rfl rfl
  exact found

theorem LeftmostFrom.eq_singleton {hits : List TeamSpan} (h : LeftmostFrom dictionary t 0 hits)
    {hit : TeamSpan} (member : hit ∈ hits) (front : hit.start = 0) (back : t.length ≤ hit.stop) :
    hits = [hit] := by
  obtain ⟨before, behind, rfl⟩ := List.append_of_mem member
  obtain ⟨-, later, apart⟩ := List.pairwise_append.mp h.ordered
  have no_before : before = [] := by
    apply List.eq_nil_iff_forall_not_mem.mpr
    intro x hx
    have ends := apart x hx hit List.mem_cons_self
    have positive := h.nonempty x (List.mem_append_left _ hx)
    omega
  have no_behind : behind = [] := by
    apply List.eq_nil_iff_forall_not_mem.mpr
    intro x hx
    have begins := List.rel_of_pairwise_cons later hx
    have member : x ∈ before ++ hit :: behind :=
      List.mem_append_right _ (List.mem_cons_of_mem _ hx)
    have positive := h.nonempty x member
    have inside := h.inside x member
    omega
  rw [no_before, no_behind]
  rfl

theorem fits_own {e : TeamAlias} (free : isReservedWord e.lowered = false)
    (same : e.lowered = lowerInPlace e.name) : Fits e e.name 0 where
  free := free
  spelled := same ▸ List.prefix_rfl
  apart _ := by
    refine ⟨rfl, ?_⟩
    rw [Nat.zero_add, TeamAlias.length, List.getElem?_eq_none le_rfl]
    rfl

theorem Fits.lowered_eq {e : TeamAlias} (h : Fits e t 0) (aligned : e.length ≤ e.lowered.length)
    (whole : t.length ≤ e.length) : e.lowered = lowerInPlace t := by
  apply h.spelled.eq_of_length_le
  rw [List.drop_zero, length_lowerInPlace]
  exact whole.trans aligned

/-- In a dictionary without repeated names, an alias that is lowered in place is all that is found
in its own text. -/
theorem teamNames_own (full : LongestFirst dictionary)
    (distinct : (dictionary.map (·.lowered)).Nodup) {e : TeamAlias} (he : e ∈ dictionary)
    (free : isReservedWord e.lowered = false) (same : e.lowered = lowerInPlace e.name) :
    teamNames e.name dictionary = [⟨e.teamId, e.teamName, e.name, 0, e.length⟩] := by
  have leftmost := leftmostFrom_teamNames full e.name
  have fits := fits_own free same
  obtain ⟨hit, member, front⟩ : ∃ hit ∈ teamNames e.name dictionary, hit.start = 0 := by
    by_contra nowhere
    refine leftmost.complete 0 le_rfl (fun hit member => .inl ?_) e he fits
    exact Nat.pos_of_ne_zero fun front => nowhere ⟨hit, member, front⟩
  obtain ⟨x, hx, made, fits_x, longest⟩ := leftmost.longest hit member
  rw [front] at made fits_x longest
  -- It is as long as the text, so its lower case is that of the text.
  have aligned := full.aligned x hx
  have whole : e.length ≤ x.length := longest e he fits
  have equal : x.lowered = e.lowered := (fits_x.lowered_eq aligned whole).trans same.symm
  obtain rfl : x = e := List.inj_on_of_nodup_map distinct hx he equal
  rw [Nat.zero_add] at made
  rw [leftmost.eq_singleton member front (by rw [made]; exact le_rfl), made]

end Scan

namespace AliasDictionary

open Scan

variable {α : Type} {teams : List (Team α)}

theorem lowered_of_mem_ofTeams {e : TeamAlias} (he : e ∈ ofTeams teams) :
    e.lowered = lower e.name := by
  obtain ⟨p, -, listed⟩ := mem_ofTeams he
  obtain ⟨name, -, rfl⟩ := List.mem_map.mp listed
  rfl

variable [Scalar α]

/-- An alias of a dictionary that is no word for an outcome is found in its own text, alone and from
the beginning to the end, if and only if no dotted capital I is in it and no capital sigma ends one
of its words. -/
theorem teamNames_ownText [Coercion α] (teams : List (Team α)) :
    ∃ dictionary, ofRows (teams.map ProviderRow.team) = .ok dictionary ∧
      ∀ e ∈ dictionary, isReservedWord e.lowered = false →
        (teamNames e.name dictionary = [⟨e.teamId, e.teamName, e.name, 0, e.name.length⟩] ↔
          '\u0130' ∉ e.name ∧ ¬SigmaEndsWord [] e.name) := by
  refine ⟨ofTeams teams, ofRows_teams teams, fun e he free => ?_⟩
  have full := longestFirst_ofTeams teams
  rw [← lower_eq_lowerInPlace_iff, ← lowered_of_mem_ofTeams he]
  refine ⟨fun found => ?_, teamNames_own full (nodup_ofAliases _) he free⟩
  have leftmost := leftmostFrom_teamNames full e.name
  rw [found] at leftmost
  obtain ⟨x, hx, made, fits, -⟩ := leftmost.longest _ (List.mem_singleton_self _)
  simp only [TeamSpan.mk.injEq, Nat.zero_add] at made
  obtain ⟨-, -, name, -, stop⟩ := made
  have equal : e.lowered = x.lowered := by
    rw [lowered_of_mem_ofTeams he, lowered_of_mem_ofTeams hx, name]
  rw [equal]
  exact fits.lowered_eq (full.aligned x hx) stop.le

/-- Teams with a dotted capital I and with a capital sigma at the end of a word in their names. -/
def capitalTeams : List (Team ℚ) := [
  ⟨"istanbul".toList, "İstanbul".toList, [], 0, 0.5⟩,
  ⟨"aris".toList, "Saloni".toList, ["ΑΡΗΣ".toList, "Άρης".toList], 0, 0.5⟩]

def capitalNames : List TeamAlias := [
  ⟨"İstanbul".toList, "i\u0307stanbul".toList, "istanbul".toList, "İstanbul".toList⟩,
  ⟨"Saloni".toList, "saloni".toList, "aris".toList, "Saloni".toList⟩,
  ⟨"ΑΡΗΣ".toList, "αρης".toList, "aris".toList, "Saloni".toList⟩,
  ⟨"Άρης".toList, "άρης".toList, "aris".toList, "Saloni".toList⟩]

theorem ofTeams_capitalTeams : ofTeams capitalTeams = capitalNames := by
  have listed : capitalTeams.flatMap TeamAlias.ofTeam = capitalNames := by decide +kernel
  have sorted : capitalNames.mergeSort (fun a b => b.length ≤ a.length) = capitalNames :=
    List.mergeSort_of_pairwise (by decide)
  have kept : distinctFrom [] capitalNames = capitalNames := by decide +kernel
  rw [ofTeams, listed, ofAliases, sorted, kept]

theorem teamNames_ownText_small : ∃ dictionary,
    ofRows (capitalTeams.map ProviderRow.team) = .ok dictionary ∧
    ∃ e ∈ dictionary, e.name = "Άρης".toList ∧ isReservedWord e.lowered = false ∧
      '\u0130' ∉ e.name ∧ ¬SigmaEndsWord [] e.name ∧
      teamNames e.name dictionary = [⟨e.teamId, e.teamName, e.name, 0, e.name.length⟩] := by
  obtain ⟨dictionary, made, own⟩ := teamNames_ownText capitalTeams
  have same := made
  rw [ofRows_teams, ofTeams_capitalTeams] at same
  obtain rfl := Except.ok.inj same
  let e : TeamAlias := ⟨"Άρης".toList, "άρης".toList, "aris".toList, "Saloni".toList⟩
  have member : e ∈ capitalNames := by decide
  have free : isReservedWord e.lowered = false := by decide
  have small : '\u0130' ∉ e.name ∧ ¬SigmaEndsWord [] e.name :=
    (lower_eq_lowerInPlace_iff e.name).mp (by decide)
  exact ⟨capitalNames, made, e, member, rfl, free, small.1, small.2, (own e member free).mpr small⟩

/-- Nothing is found in the texts of the two names with such capitals. -/
theorem exists_ownText_missed : ∃ dictionary,
    ofRows (capitalTeams.map ProviderRow.team) = .ok dictionary ∧
    (∃ e ∈ dictionary, e.name = "ΑΡΗΣ".toList ∧ isReservedWord e.lowered = false ∧
      teamNames e.name dictionary = []) ∧
    ∃ e ∈ dictionary, e.name = "İstanbul".toList ∧ isReservedWord e.lowered = false ∧
      teamNames e.name dictionary = [] := by
  refine ⟨capitalNames, by rw [ofRows_teams, ofTeams_capitalTeams], ?_, ?_⟩
  · exact ⟨capitalNames[2], by decide, rfl, by decide, by decide⟩
  · exact ⟨capitalNames[0], by decide, rfl, by decide, by decide⟩

end AliasDictionary

end Wager
