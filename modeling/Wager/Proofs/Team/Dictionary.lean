import Wager.Proofs.Ordered
import Wager.Proofs.Text.Trim
import Wager.Team.Dictionary

/-!
# Looking up a dictionary

Under a lower-case name a dictionary holds the longest spelling of it and, of equally long ones, the
one that comes first.
-/

namespace Wager

namespace AliasDictionary

theorem find?_distinctFrom {seen : List Text} {k : Text} (new : k ∉ seen)
    (entries : List TeamAlias) : (distinctFrom seen entries).find? (·.lowered == k) =
      entries.find? (·.lowered == k) := by
  induction entries generalizing seen with
  | nil => rfl
  | cons e entries ih =>
    rw [distinctFrom]
    split
    next old =>
      have other : e.lowered ≠ k := by
        rintro rfl
        exact new (by simpa using old)
      rw [ih new, List.find?_cons_of_neg (by simpa using other)]
    next =>
      by_cases he : e.lowered = k
      · rw [List.find?_cons_of_pos (by simpa using he), List.find?_cons_of_pos (by simpa using he)]
      · have still : k ∉ e.lowered :: seen := by simp [Ne.symm he, new]
        rw [List.find?_cons_of_neg (by simpa using he), List.find?_cons_of_neg (by simpa using he),
          ih still]

/-- The team that a name belongs to, in any letter case and with blanks around it. -/
def teamOf? (dictionary : List TeamAlias) (name : Text) : Option Text :=
  (dictionary.find? (·.lowered == nameKey name)).map (·.teamName)

def Aligned (entries : List TeamAlias) : Prop := ∀ e ∈ entries, e.length ≤ e.lowered.length

theorem aligned_ofTeam {α : Type} (p : Team α) : Aligned (TeamAlias.ofTeam p) := by
  intro e he
  obtain ⟨name, _, rfl⟩ := List.mem_map.mp he
  exact Text.length_le_lower name

theorem find?_ofAliases {entries : List TeamAlias} (aligned : Aligned entries) {k : Text}
    {e : TeamAlias}
    (h : entries.find? (fun e => e.lowered == k && e.length == k.length) = some e) :
    (ofAliases entries).find? (·.lowered == k) = some e := by
  obtain ⟨fits, front, back, rfl, before⟩ := List.find?_eq_some_iff_append.mp h
  simp only [Bool.and_eq_true, beq_iff_eq] at fits
  rw [ofAliases, find?_distinctFrom List.not_mem_nil]
  apply find?_mergeSort
  · intro a b c hab hbc
    simp only [decide_eq_true_eq] at hab hbc ⊢
    omega
  · intro a b
    simp only [Bool.or_eq_true, decide_eq_true_eq]
    omega
  · simp [fits.1]
  · intro x hx hp
    have bound := aligned x (List.mem_append_right front (List.mem_cons_of_mem e hx))
    simp only [beq_iff_eq] at hp
    rw [hp] at bound
    simp only [decide_eq_true_eq]
    omega
  · intro x hx hp
    have bound := aligned x (List.mem_append_left _ hx)
    have differs := before x hx
    simp only [beq_iff_eq] at hp
    rw [hp] at bound
    simp [hp] at differs
    simp only [decide_eq_false_iff_not]
    omega

end AliasDictionary

end Wager
