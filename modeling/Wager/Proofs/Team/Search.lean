import Wager.Proofs.Ordered
import Wager.Proofs.Scalar.Rational
import Wager.Proofs.Team.Names
import Wager.Proofs.Text.Occurs

/-!
# Ranked search

A search lists the teams with an alias that the query stands in.  First come those that are called
so, then those with an alias that begins with it, then the others; of each kind, those with more
samples, with shorter names and further in front in the directory come first.
-/

namespace Wager

open Text

namespace Team

variable {α : Type} {key : Text} {p : Team α}

/-- Whether an alias of the team is the text `key` in lower case. -/
def IsCalled (key : Text) (p : Team α) : Prop := ∃ a ∈ p.aliases, lower a = key

/-- Whether an alias of the team begins with `key` in lower case. -/
def Begins (key : Text) (p : Team α) : Prop := ∃ a ∈ p.aliases, key <+: lower a

def Answers (key : Text) (p : Team α) : Prop := ∃ a ∈ p.aliases, key <:+: lower a

instance : Decidable (IsCalled key p) :=
  inferInstanceAs (Decidable (∃ a ∈ p.aliases, lower a = key))

instance : Decidable (Begins key p) :=
  inferInstanceAs (Decidable (∃ a ∈ p.aliases, key <+: lower a))

instance : Decidable (Answers key p) :=
  inferInstanceAs (Decidable (∃ a ∈ p.aliases, key <:+: lower a))

theorem IsCalled.begins (h : IsCalled key p) : Begins key p := by
  obtain ⟨a, ha, rfl⟩ := h
  exact ⟨a, ha, List.prefix_rfl⟩

theorem Begins.answers (h : Begins key p) : Answers key p := by
  obtain ⟨a, ha, front⟩ := h
  exact ⟨a, ha, front.isInfix⟩

def tier (key : Text) (p : Team α) : Nat :=
  if IsCalled key p then 0 else if Begins key p then 1 else 2

theorem tier_eq_zero_iff : tier key p = 0 ↔ IsCalled key p := by
  unfold tier
  split_ifs <;> simp_all

theorem any_aliases {test : Text → Bool} {holds : Text → Prop}
    (tests : ∀ t, test t = true ↔ holds t) :
    (p.aliases.map nameKey).any test = true ↔ ∃ a ∈ p.aliases, holds (lower a) := by
  rw [List.any_map, List.any_eq_true]
  refine exists_congr fun a => and_congr_right fun ha => ?_
  rw [Function.comp_apply, nameKey_eq_of_mem_aliases ha, tests]

end Team

namespace Directory

open Team

variable {α : Type} {key : Text}

theorem score_eq (key : Text) (p : Team α) : score key p =
    if IsCalled key p then 17 else if Begins key p then 5 else if Answers key p then 1 else 0 := by
  have called : (p.aliases.map nameKey).any (· == key) = true ↔ IsCalled key p :=
    any_aliases fun _ => beq_iff_eq
  have begins : (p.aliases.map nameKey).any (key.isPrefixOf ·) = true ↔ Begins key p :=
    any_aliases fun _ => List.isPrefixOf_iff_prefix
  have answers : (p.aliases.map nameKey).any (occursIn key ·) = true ↔ Answers key p :=
    any_aliases fun _ => occursIn_iff
  simp only [score, called, begins, answers]
  by_cases exact : IsCalled key p
  · simp [exact, exact.begins, exact.begins.answers]
  by_cases front : Begins key p
  · simp [exact, front, front.answers]
  · simp [exact, front]

theorem score_eq_zero_iff {p : Team α} : score key p = 0 ↔ ¬Answers key p := by
  rw [score_eq]
  split_ifs with called begins answers
  · simp [called.begins.answers]
  · simp [begins.answers]
  · simp [answers]
  · simp [answers]

theorem score_lt_iff {p q : Team α} (hp : Answers key p) (hq : Answers key q) :
    score key q < score key p ↔ tier key p < tier key q := by
  rw [score_eq, score_eq, tier, tier]
  split_ifs <;> simp_all

theorem listedBefore_iff (a b : Nat × Team α) : listedBefore a b = true ↔
    b.1 < a.1 ∨ a.1 = b.1 ∧ (b.2.totalSamples < a.2.totalSamples ∨
      a.2.totalSamples = b.2.totalSamples ∧ a.2.name.length ≤ b.2.name.length) := by
  unfold listedBefore
  split_ifs with points samples
  · simp only [bne_iff_ne] at points
    simp [points]
  · simp only [bne_iff_ne, not_not] at points samples
    simp [points, samples]
  · simp only [bne_iff_ne, not_not] at points samples
    simp [points, samples]

/-- Whether one team with its position in the directory is ranked before another. -/
def RankedBefore (key : Text) (a b : Team α × Nat) : Prop :=
  tier key a.1 < tier key b.1 ∨ tier key a.1 = tier key b.1 ∧
    (b.1.totalSamples < a.1.totalSamples ∨ b.1.totalSamples = a.1.totalSamples ∧
      (a.1.name.length < b.1.name.length ∨ a.1.name.length = b.1.name.length ∧ a.2 < b.2))

/-- Whether one team is listed before another by points, samples and length of name. -/
def listed (key : Text) (a b : Team α × Nat) : Bool :=
  listedBefore (score key a.1, a.1) (score key b.1, b.1)

theorem listed_trans (a b c : Team α × Nat) (hab : listed key a b = true)
    (hbc : listed key b c = true) : listed key a c = true := by
  rw [listed, listedBefore_iff] at *
  dsimp only at *
  omega

theorem listed_total (a b : Team α × Nat) : (listed key a b || listed key b a) = true := by
  rw [Bool.or_eq_true, listed, listed, listedBefore_iff, listedBefore_iff]
  dsimp only
  omega

theorem rankedBefore_of_listed {a b : Team α × Nat} (ha : Answers key a.1) (hb : Answers key b.1)
    (h : listed key a b = true) (tie : listed key b a = true → a.2 < b.2) :
    RankedBefore key a b := by
  rw [listed, listedBefore_iff] at h tie
  have better := score_lt_iff ha hb
  have worse := score_lt_iff hb ha
  unfold RankedBefore
  dsimp only at *
  omega

/-- The teams that answer a query with their positions, in the order of the directory. -/
def answering (key : Text) (directory : List (Team α)) : List (Team α × Nat) :=
  directory.zipIdx.filter fun x => Answers key x.1

theorem pairwise_answering (key : Text) (directory : List (Team α)) :
    (answering key directory).Pairwise fun a b => a.2 < b.2 :=
  (pairwise_zipIdx directory).filter _

theorem map_answering (key : Text) (directory : List (Team α)) :
    (answering key directory).map (fun x => (score key x.1, x.1)) =
      directory.filterMap fun p => if score key p == 0 then none else some (score key p, p) := by
  conv_rhs => rw [← List.zipIdx_map_fst 0 directory, List.filterMap_map]
  rw [answering, ← List.filterMap_eq_map, List.filterMap_filter]
  apply List.filterMap_congr
  intro x _
  by_cases answers : Answers key x.1
  · simp [answers, score_eq_zero_iff]
  · simp [answers, score_eq_zero_iff]

theorem search_eq {query : Text} (content : trim query ≠ []) (directory : List (Team α))
    {limit : Int} (nonneg : 0 ≤ limit) : search query directory limit =
      (((answering (nameKey query) directory).mergeSort (listed (nameKey query))).take
        limit.toNat).map (·.1) := by
  have sorted : ((answering (nameKey query) directory).mergeSort (listed (nameKey query))).map
      (fun x => (score (nameKey query) x.1, x.1)) =
        (directory.filterMap fun p => if score (nameKey query) p == 0 then none
          else some (score (nameKey query) p, p)).mergeSort listedBefore := by
    rw [← map_answering]
    exact List.map_mergeSort fun _ _ _ _ => rfl
  unfold search
  dsimp only
  rw [if_neg (by simpa [nameKey_eq_nil_iff] using content), takeLimit, if_pos nonneg, ← sorted,
    ← List.map_take, List.map_map]
  rfl

theorem of_find? {query : Text} {directory : List (Team α)} {p : Team α}
    (found : find? query directory = some p) : p ∈ directory ∧ IsCalled (nameKey query) p := by
  unfold find? at found
  dsimp only at found
  split at found
  · cases found
  · refine ⟨List.mem_of_find?_eq_some found, ?_⟩
    have named := List.find?_some found
    simp only [List.any_eq_true, beq_iff_eq] at named
    obtain ⟨a, ha, same⟩ := named
    exact ⟨a, ha, (nameKey_eq_of_mem_aliases ha).symm.trans same⟩

/-- A search lists the first `limit` of the teams that answer the query, ranked by the kind of the
answer, the samples, the length of the name and the position in the directory.  When a team is
looked up by the query, the first team of the list is called so, too. -/
theorem search_ranked {query : Text} (content : trim query ≠ []) (directory : List (Team α))
    {limit : Int} (positive : 1 ≤ limit) :
    (∃ ranked : List (Team α × Nat),
      ranked.Perm (directory.zipIdx.filter fun x => Answers (nameKey query) x.1) ∧
      ranked.Pairwise (RankedBefore (nameKey query)) ∧
      search query directory limit = (ranked.take limit.toNat).map (·.1)) ∧
    ∀ p, find? query directory = some p →
      ∃ first, (search query directory limit).head? = some first ∧
        IsCalled (nameKey query) first := by
  let key := nameKey query
  let ranked := (answering key directory).mergeSort (listed key)
  have perm : ranked.Perm (answering key directory) := List.mergeSort_perm _ _
  have answers {x : Team α × Nat} (hx : x ∈ ranked) : Answers key x.1 := by
    simpa using (List.mem_filter.mp (perm.mem_iff.mp hx)).2
  have ordered : ranked.Pairwise (RankedBefore key) :=
    (pairwise_mergeSort_of_pairwise listed_trans listed_total
      (pairwise_answering key directory)).imp_of_mem fun ha hb before =>
        rankedBefore_of_listed (answers ha) (answers hb) before.1 before.2
  have found := search_eq content directory (Int.le_of_lt positive)
  refine ⟨⟨ranked, perm, ordered, found⟩, fun p hp => ?_⟩
  obtain ⟨member, called⟩ := of_find? hp
  obtain ⟨i, hi⟩ : ∃ i, (p, i) ∈ directory.zipIdx := by
    obtain ⟨i, hi⟩ := List.mem_iff_getElem?.mp member
    exact ⟨i, List.mem_zipIdx_iff_getElem?.mpr hi⟩
  have place : (p, i) ∈ ranked :=
    perm.mem_iff.mpr (List.mem_filter.mpr ⟨hi, decide_eq_true called.begins.answers⟩)
  obtain ⟨first, rest, list⟩ := List.exists_cons_of_ne_nil (List.ne_nil_of_mem place)
  have front : first.1.tier key = 0 := by
    have last : p.tier key = 0 := tier_eq_zero_iff.mpr called
    rw [list] at place ordered
    rcases List.mem_cons.mp place with rfl | later
    · exact last
    · have before := (List.pairwise_cons.mp ordered).1 _ later
      unfold RankedBefore at before
      dsimp only at before
      omega
  refine ⟨first.1, ?_, tier_eq_zero_iff.mp front⟩
  rw [found, show (answering key directory).mergeSort (listed key) = _ from list]
  obtain ⟨n, count⟩ : ∃ n, limit.toNat = n + 1 := ⟨limit.toNat - 1, by omega⟩
  rw [count]
  rfl

theorem RankedBefore.asymm {a b : Team α × Nat} (h : RankedBefore key a b) :
    ¬RankedBefore key b a := by
  unfold RankedBefore at *
  omega

/-- One team of each kind, the weakest answer in front, and one that does not answer. -/
def cityTeams : List (Team ℚ) := [
  ⟨"old".toList, "Old City".toList, [], 9, 1⟩,
  ⟨"ville".toList, "Cityville".toList, ["cv".toList], 4, 1⟩,
  ⟨"town".toList, "Town".toList, [], 7, 1⟩,
  ⟨"city".toList, "Manchester".toList, ["City".toList], 0, 1⟩]

theorem search_ranked_city : trim " CITY ".toList ≠ [] ∧ (1 : Int) ≤ 2 ∧
    (search " CITY ".toList cityTeams 2).map (·.id) = ["city".toList, "ville".toList] := by
  have content : trim " CITY ".toList ≠ [] := by decide
  have positive : (1 : Int) ≤ 2 := by decide
  refine ⟨content, positive, ?_⟩
  obtain ⟨⟨ranked, perm, ordered, found⟩, -⟩ := search_ranked content cityTeams positive
  let teams := cityTeams.zipIdx
  have order : ranked = [teams[3], teams[1], teams[0]] := by
    apply List.Perm.eq_of_pairwise _ ordered
    · unfold RankedBefore
      decide
    · exact perm.trans (by decide)
    · exact fun a b _ _ before after => absurd after before.asymm
  rw [found, order]
  rfl

end Directory

end Wager
