import Wager.Proofs.Ordered
import Wager.Proofs.Scalar.Rational
import Wager.Proofs.Team.Names
import Wager.Proofs.Text.Words
import Wager.Team.Similarity

/-!
# Suggested teams

A search ranks aliases, but suggestions are teams.  Taking owners in the order in which their
aliases are found, each once, ranks them by their best alias, whatever the scores are and however
the names of teams repeat.
-/

namespace Wager

open Text

namespace Similarity

def percent (s : Similarity) : ℚ := 100 * s.shared / s.total

theorem less_iff {a b : Similarity} (ha : 0 < a.total) (hb : 0 < b.total) :
    a.less b = true ↔ a.percent < b.percent := by
  have positive_a : (0 : ℚ) < a.total := Nat.cast_pos.mpr ha
  have positive_b : (0 : ℚ) < b.total := Nat.cast_pos.mpr hb
  rw [less, decide_eq_true_eq, percent, percent, div_lt_div_iff₀ positive_a positive_b, mul_assoc,
    mul_assoc, mul_lt_mul_iff_right₀ (by norm_num)]
  norm_cast

theorem reaches_iff {s : Similarity} (positive : 0 < s.total) (cutoff : Int) :
    s.reaches cutoff = true ↔ (cutoff : ℚ) ≤ s.percent := by
  have positive_s : (0 : ℚ) < s.total := Nat.cast_pos.mpr positive
  rw [reaches, decide_eq_true_eq, percent, le_div_iff₀ positive_s]
  norm_cast

theorem total_max_pos {a b : Similarity} (ha : 0 < a.total) (hb : 0 < b.total) :
    0 < (a.max b).total := by
  unfold Similarity.max
  split
  · exact hb
  · exact ha

theorem ne_nil_of_mem_sortedWords {t w : Text} (hw : w ∈ sortedWords t) : w ≠ [] := by
  rw [sortedWords, List.mem_mergeSort, List.mem_eraseDups] at hw
  exact ne_nil_of_mem_words hw

theorem total_ofWords_pos (a b : Text) : 0 < (ofWords a b).total := by
  unfold ofWords
  extract_lets first second common onlyFirst onlySecond rest other shared gap
    firstLength secondLength distance whole
  split
  · exact Nat.one_pos
  next both =>
    split
    · exact Nat.one_pos
    next apart =>
      split
      -- Without a common word, the words of the first text are compared.
      next alone =>
        have shared_eq : shared = 0 := by simpa using alone
        have rest_pos : 0 < rest.length := by
          have filled : ∀ w ∈ first, w ≠ [] := fun w hw => ne_nil_of_mem_sortedWords hw
          have common_nil : common = [] := by
            by_contra some_common
            have pos : 0 < shared := length_join_pos some_common fun w hw =>
              filled w (List.mem_of_mem_filter hw)
            omega
          have all_only : onlyFirst = first := by
            rw [List.filter_eq_nil_iff] at common_nil
            rw [List.filter_eq_self]
            intro w hw
            simpa using common_nil w hw
          refine length_join_pos ?_ fun w hw => filled w (List.mem_of_mem_filter hw)
          intro none
          rw [all_only] at none
          simp [none] at both
        change 0 < firstLength + secondLength
        omega
      next some_shared =>
        have shared_ne : shared ≠ 0 := by simpa using some_shared
        refine total_max_pos ?_ (total_max_pos ?_ ?_)
        · change 0 < firstLength + secondLength
          omega
        · change 0 < shared + firstLength
          omega
        · change 0 < shared + secondLength
          omega

end Similarity

namespace Suggestion

variable {α : Type}

/-- Whether position `i` of a list of names has a higher score than position `j`, or the same and
comes earlier. -/
def Ahead (score : Text → ℚ) (names : List Text) (i j : Nat) : Prop :=
  ∃ m n, names[i]? = some m ∧ names[j]? = some n ∧ (score n < score m ∨ score m = score n ∧ i < j)

/-- Whether a search finds the positions of all names that score at least the cutoff, the higher
scores first and equal ones in order. -/
structure RanksBy (score : Text → Text → ℚ) (search : NameSearch) : Prop where
  mem_iff : ∀ query cutoff names i, i ∈ search query cutoff names ↔
    ∃ name, names[i]? = some name ∧ (cutoff : ℚ) ≤ score query name
  ordered : ∀ query cutoff names,
    (search query cutoff names).Pairwise (Ahead (score query) names)

/-- Whether position `i` is that of the first of the best aliases of an owner. -/
structure BestAlias (score : Text → ℚ) (offered : List Choice) (owner : Text) (i : Nat) : Prop where
  owned : ∃ c, offered[i]? = some c ∧ c.owner = owner
  best : ∀ j c, offered[j]? = some c → c.owner = owner →
    i = j ∨ Ahead score (offered.map (·.name)) i j

/-- Whether owners are all those with an alias that scores at least the cutoff, each once and by
their best aliases. -/
structure Ranking (score : Text → ℚ) (cutoff : ℚ) (offered : List Choice) (owners : List Text) :
    Prop where
  distinct : owners.Nodup
  mem_iff : ∀ owner, owner ∈ owners ↔ ∃ c ∈ offered, c.owner = owner ∧ cutoff ≤ score c.name
  ordered : owners.Pairwise fun m n => ∃ i j, BestAlias score offered m i ∧
    BestAlias score offered n j ∧ Ahead score (offered.map (·.name)) i j

/-- Collecting stops early, but takes each owner when it first comes. -/
theorem collect_eq {limit : Int} {found : List Text} (room : found.length < limit)
    (owners : List Text) : collect limit found owners =
      (found ++ (owners.removeAll found).eraseDups).take limit.toNat := by
  induction owners generalizing found with
  | nil =>
    rw [collect, List.removeAll, List.filter_nil, List.eraseDups_nil, List.append_nil,
      List.take_of_length_le (by omega)]
  | cons owner owners ih =>
    rw [collect]
    by_cases old : owner ∈ found
    · have skipped : (owner :: owners).removeAll found = owners.removeAll found := by
        simp [List.removeAll, old]
      rw [if_pos (show found.contains owner = true by simpa using old), if_neg (by omega), skipped]
      exact ih room
    · rw [if_neg (show ¬found.contains owner = true by simpa using old),
        eraseDups_removeAll_cons old, List.append_cons found owner (List.eraseDups _)]
      have length : (found ++ [owner]).length = found.length + 1 := List.length_append
      split
      next full => rw [show limit.toNat = (found ++ [owner]).length by omega, List.take_left]
      next more => exact ih (by omega)

def ownerAt (offered : List Choice) (i : Nat) : Text := (offered[i]?.map (·.owner)).getD []

theorem ownerAt_eq {offered : List Choice} {i : Nat} {c : Choice} (h : offered[i]? = some c) :
    ownerAt offered i = c.owner := by
  rw [ownerAt, h]
  rfl

theorem filterMap_owner {offered : List Choice} {positions : List Nat}
    (valid : ∀ i ∈ positions, ∃ c, offered[i]? = some c) :
    positions.filterMap (fun i => offered[i]?.map (·.owner)) =
      positions.map (ownerAt offered) := by
  rw [← List.filterMap_eq_map]
  apply List.filterMap_congr
  intro i hi
  obtain ⟨c, hc⟩ := valid i hi
  rw [Function.comp_apply, ownerAt_eq hc, hc]
  rfl

variable {score : Text → Text → ℚ} {search : NameSearch}

theorem RanksBy.mem_iff_choice (ranks : RanksBy score search) {query : Text} {cutoff : Int}
    {offered : List Choice} {i : Nat} : i ∈ search query cutoff (offered.map (·.name)) ↔
      ∃ c, offered[i]? = some c ∧ (cutoff : ℚ) ≤ score query c.name := by
  rw [ranks.mem_iff, List.getElem?_map]
  simp

/-- The best alias of an owner is the first one that is found, for what is not found is worse. -/
theorem RanksBy.bestAlias_of_first (ranks : RanksBy score search) {query : Text} {cutoff : Int}
    {offered : List Choice} {owner : Text} {i : Nat}
    (first : FirstWith (ownerAt offered) (Ahead (score query) (offered.map (·.name)))
      (search query cutoff (offered.map (·.name))) owner i) :
    BestAlias (score query) offered owner i := by
  obtain ⟨c, hc, reached⟩ := ranks.mem_iff_choice.mp first.mem
  refine ⟨⟨c, hc, (ownerAt_eq hc).symm.trans first.value⟩, fun j d hd same => ?_⟩
  by_cases also : (cutoff : ℚ) ≤ score query d.name
  · exact first.least j (ranks.mem_iff_choice.mpr ⟨d, hd, also⟩) ((ownerAt_eq hd).trans same)
  · refine .inr ⟨c.name, d.name, by simp [hc], by simp [hd], .inl ?_⟩
    exact (not_le.mp also).trans_le reached

theorem RanksBy.ranking (ranks : RanksBy score search) (query : Text) (cutoff : Int)
    (offered : List Choice) : Ranking (score query) cutoff offered
      ((search query cutoff (offered.map (·.name))).map (ownerAt offered)).eraseDups where
  distinct := nodup_eraseDups _
  mem_iff owner := by
    rw [List.mem_eraseDups, List.mem_map]
    constructor
    · rintro ⟨i, hi, rfl⟩
      obtain ⟨c, hc, reached⟩ := ranks.mem_iff_choice.mp hi
      exact ⟨c, List.mem_of_getElem? hc, (ownerAt_eq hc).symm, reached⟩
    · rintro ⟨c, hc, rfl, reached⟩
      obtain ⟨i, hi⟩ := List.mem_iff_getElem?.mp hc
      exact ⟨i, ranks.mem_iff_choice.mpr ⟨c, hi, reached⟩, ownerAt_eq hi⟩
  ordered := by
    refine (pairwise_eraseDups_map (ranks.ordered query cutoff _)).imp ?_
    rintro m n ⟨i, j, hi, hj, before⟩
    exact ⟨i, j, ranks.bestAlias_of_first hi, ranks.bestAlias_of_first hj, before⟩

theorem namesBy_of_blank {fragment : Text} (blank : trim fragment = [])
    (directory : List (Team α)) (limit cutoff : Int) :
    namesBy search fragment directory limit cutoff = [] := by
  rw [namesBy, nameKey_eq_nil_iff.mpr blank]
  rfl

theorem RanksBy.namesBy_eq (ranks : RanksBy score search) {fragment : Text}
    (content : trim fragment ≠ []) (directory : List (Team α)) {limit : Int} (positive : 1 ≤ limit)
    (cutoff : Int) : namesBy search fragment directory limit cutoff =
      ((search (nameKey fragment) cutoff ((choices directory).map (·.name))).map
        (ownerAt (choices directory))).eraseDups.take limit.toNat := by
  have filled : (nameKey fragment).isEmpty = false := by
    simpa [nameKey_eq_nil_iff] using content
  unfold namesBy
  dsimp only
  rw [filled, Bool.false_or]
  split
  -- Without a name there is none to find.
  next none =>
    have nothing : search (nameKey fragment) cutoff ((choices directory).map (·.name)) = [] := by
      rw [List.eq_nil_iff_forall_not_mem]
      intro i hi
      obtain ⟨c, hc, -⟩ := ranks.mem_iff_choice.mp hi
      rw [List.isEmpty_iff.mp none] at hc
      cases hc
    rw [nothing, List.map_nil, List.eraseDups_nil, List.take_nil]
  next _ =>
    have room : (([] : List Text).length : Int) < limit := Int.lt_of_lt_of_le Int.one_pos positive
    have valid : ∀ i ∈ search (nameKey fragment) cutoff ((choices directory).map (·.name)),
        ∃ c, (choices directory)[i]? = some c := by
      intro i hi
      obtain ⟨c, hc, -⟩ := ranks.mem_iff_choice.mp hi
      exact ⟨c, hc⟩
    have untouched (l : List Text) : l.removeAll [] = l := by simp [List.removeAll]
    rw [filterMap_owner valid, collect_eq room, List.nil_append, untouched]

def percentage (query name : Text) : ℚ := (Similarity.ofWords query name).percent

/-- Whether a position of a list of names comes with the similarity of the name there. -/
def Rates (query : Text) (names : List Text) (x : Similarity × Nat) : Prop :=
  ∃ name, names[x.2]? = some name ∧ Similarity.ofWords query name = x.1

/-- Whether the first of two similarities is at least the second. -/
def atLeast (a b : Similarity × Nat) : Bool := b.1.percent ≤ a.1.percent

theorem atLeast_trans (a b c : Similarity × Nat) (hab : atLeast a b = true)
    (hbc : atLeast b c = true) : atLeast a c = true := by
  rw [atLeast, decide_eq_true_eq] at *
  exact hbc.trans hab

theorem atLeast_total (a b : Similarity × Nat) : (atLeast a b || atLeast b a) = true := by
  rw [Bool.or_eq_true, atLeast, atLeast, decide_eq_true_eq, decide_eq_true_eq]
  exact le_total b.1.percent a.1.percent

theorem not_less_eq_atLeast {query : Text} {names : List Text} {a b : Similarity × Nat}
    (ha : Rates query names a) (hb : Rates query names b) : (!a.1.less b.1) = atLeast a b := by
  obtain ⟨m, -, hm⟩ := ha
  obtain ⟨n, -, hn⟩ := hb
  have less := Similarity.less_iff (Similarity.total_ofWords_pos query m)
    (Similarity.total_ofWords_pos query n)
  rw [hm, hn] at less
  rw [Bool.eq_iff_iff, atLeast, decide_eq_true_eq, ← not_lt, ← less, Bool.not_eq_true',
    Bool.not_eq_true]

theorem ahead_of_atLeast {query : Text} {names : List Text} {a b : Similarity × Nat}
    (ha : Rates query names a) (hb : Rates query names b) (more : atLeast a b = true)
    (tie : atLeast b a = true → a.2 < b.2) :
    Ahead (percentage query) names a.2 b.2 := by
  obtain ⟨m, hm, same_m⟩ := ha
  obtain ⟨n, hn, same_n⟩ := hb
  rw [atLeast, decide_eq_true_eq] at more tie
  refine ⟨m, n, hm, hn, ?_⟩
  rw [percentage, percentage, same_m, same_n]
  rcases more.lt_or_eq with less | equal
  · exact .inl less
  · exact .inr ⟨equal.symm, tie equal.ge⟩

theorem ranksBy_bySimilarity : RanksBy percentage bySimilarity where
  mem_iff query cutoff names i := by
    simp only [bySimilarity, List.mem_map, List.mem_mergeSort, List.mem_filter, Prod.exists,
      List.mem_zipIdx_iff_getElem?]
    constructor
    · rintro ⟨_, _, ⟨⟨name, j, hj, same⟩, reached⟩, rfl⟩
      cases same
      exact ⟨name, hj, (Similarity.reaches_iff (Similarity.total_ofWords_pos _ _) _).mp reached⟩
    · rintro ⟨name, hi, reached⟩
      exact ⟨_, i, ⟨⟨name, i, hi, rfl⟩,
        (Similarity.reaches_iff (Similarity.total_ofWords_pos _ _) _).mpr reached⟩, rfl⟩
  ordered query cutoff names := by
    unfold bySimilarity
    extract_lets scored
    have rates : ∀ x ∈ scored.filter fun x => x.1.reaches cutoff, Rates query names x := by
      intro x hx
      obtain ⟨⟨name, i⟩, member, rfl⟩ := List.mem_map.mp (List.mem_of_mem_filter hx)
      exact ⟨name, List.mem_zipIdx_iff_getElem?.mp member, rfl⟩
    have in_order : scored.Pairwise fun a b => a.2 < b.2 :=
      List.pairwise_map.mpr (pairwise_zipIdx names)
    rw [mergeSort_congr fun a ha b hb => not_less_eq_atLeast (rates a ha) (rates b hb),
      List.pairwise_map]
    refine (pairwise_mergeSort_of_pairwise atLeast_trans atLeast_total
      (in_order.filter _)).imp_of_mem ?_
    intro a b ha hb before
    rw [List.mem_mergeSort] at ha hb
    exact ahead_of_atLeast (rates a ha) (rates b hb) before.1 before.2

/-- A text that is not blank suggests the first `limit` of the names that own an alias which scores
the cutoff, ranked by their best aliases.  A blank one suggests nothing. -/
theorem namesBy_ranking (ranks : RanksBy score search) (fragment : Text)
    (directory : List (Team α)) {limit : Int} (positive : 1 ≤ limit) (cutoff : Int) :
    (namesBy search fragment directory limit cutoff).Nodup ∧
    (namesBy search fragment directory limit cutoff).length ≤ limit ∧
    (trim fragment = [] → namesBy search fragment directory limit cutoff = []) ∧
    (trim fragment ≠ [] → ∃ owners,
      Ranking (score (nameKey fragment)) cutoff (choices directory) owners ∧
      namesBy search fragment directory limit cutoff = owners.take limit.toNat) := by
  by_cases blank : trim fragment = []
  · have nothing : namesBy search fragment directory limit cutoff = [] :=
      namesBy_of_blank blank directory limit cutoff
    have room : (0 : Int) ≤ limit := by omega
    rw [nothing]
    exact ⟨List.nodup_nil, room, fun _ => rfl, fun content => absurd blank content⟩
  · have ranking := ranks.ranking (nameKey fragment) cutoff (choices directory)
    have found := ranks.namesBy_eq blank directory positive cutoff
    refine ⟨?_, ?_, fun nothing => absurd nothing blank, fun _ => ⟨_, ranking, found⟩⟩
    · rw [found]
      exact ranking.distinct.sublist (List.take_sublist _ _)
    · rw [found, List.length_take]
      omega

/-- Two teams of one name, the second one known by a misspelling. -/
def namesakes : List (Team ℚ) := [
  ⟨"first".toList, "Athletic".toList, [], 0, 1⟩,
  ⟨"rovers".toList, "Rovers".toList, ["Rover".toList], 0, 1⟩,
  ⟨"second".toList, "Athletic".toList, ["Rovrs".toList], 0, 1⟩]

theorem namesBy_ranking_namesakes : RanksBy percentage bySimilarity ∧ (1 : Int) ≤ 2 ∧
    trim " rovrs ".toList ≠ [] ∧
    ∃ owners, Ranking (percentage "rovrs".toList) (80 : Int) (choices namesakes) owners ∧
      ["Athletic".toList, "Rovers".toList] = owners.take 2 := by
  have positive : (1 : Int) ≤ 2 := by decide
  have content : trim " rovrs ".toList ≠ [] := by decide
  have found : namesBy bySimilarity " rovrs ".toList namesakes 2 80 =
      ["Athletic".toList, "Rovers".toList] := by
    cbv
  obtain ⟨-, -, -, ranked⟩ :=
    namesBy_ranking ranksBy_bySimilarity " rovrs ".toList namesakes positive 80
  obtain ⟨owners, ranking, taken⟩ := ranked content
  exact ⟨ranksBy_bySimilarity, positive, content, owners, ranking, found.symm.trans taken⟩

theorem percentage_nonneg (query name : Text) : 0 ≤ percentage query name := by
  unfold percentage Similarity.percent
  positivity

def rovers : List (Team ℚ) := [⟨"rovers".toList, "Rovers".toList, [], 0, 1⟩]

/-- A blank text suggests nothing even if every name reaches the cutoff. -/
theorem namesBy_blank_unranked : RanksBy percentage bySimilarity ∧
    namesBy bySimilarity [] rovers 3 0 = [] ∧
    ¬∃ owners, Ranking (percentage (nameKey [])) (0 : Int) (choices rovers) owners ∧
      namesBy bySimilarity [] rovers 3 0 = owners.take 3 := by
  have nothing : namesBy bySimilarity [] rovers 3 0 = [] := namesBy_of_blank rfl rovers 3 0
  refine ⟨ranksBy_bySimilarity, nothing, ?_⟩
  rintro ⟨owners, ranking, taken⟩
  have offered : ⟨"rovers".toList, "Rovers".toList⟩ ∈ choices rovers := by decide
  have reached : ((0 : Int) : ℚ) ≤ percentage (nameKey []) "rovers".toList := by
    exact_mod_cast percentage_nonneg _ _
  have ranked : "Rovers".toList ∈ owners := (ranking.mem_iff _).mpr ⟨_, offered, rfl, reached⟩
  obtain ⟨first, rest, rfl⟩ := List.exists_cons_of_ne_nil (List.ne_nil_of_mem ranked)
  rw [nothing] at taken
  cases taken

end Suggestion

end Wager
