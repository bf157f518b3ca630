import Wager.Proofs.Scalar.Rational
import Wager.Proofs.Team.Scan

/-!
# Leftmost longest names

A scan goes from left to right.  Where names fit it takes a longest one and goes on behind it; it
passes over a character only where no name fits.
-/

namespace Wager

open Text

namespace AliasDictionary

/-- Dictionaries that list longer names first, none of them blank or longer than its lower-case
form. -/
structure LongestFirst (dictionary : List TeamAlias) : Prop where
  sorted : dictionary.Pairwise fun a b => b.length ≤ a.length
  named : ∀ e ∈ dictionary, e.name ≠ []
  aligned : Aligned dictionary

theorem LongestFirst.length_pos {dictionary : List TeamAlias} (h : LongestFirst dictionary)
    {e : TeamAlias} (he : e ∈ dictionary) : 0 < e.length :=
  List.length_pos_of_ne_nil (h.named e he)

theorem LongestFirst.lowered_ne_nil {dictionary : List TeamAlias} (h : LongestFirst dictionary)
    {e : TeamAlias} (he : e ∈ dictionary) : e.lowered ≠ [] :=
  List.ne_nil_of_length_pos ((h.length_pos he).trans_le (h.aligned e he))

theorem sorted_ofAliases (entries : List TeamAlias) :
    (ofAliases entries).Pairwise fun a b => b.length ≤ a.length := by
  have ordered : (entries.mergeSort fun a b => b.length ≤ a.length).Pairwise
      fun a b => decide (b.length ≤ a.length) = true := by
    apply List.pairwise_mergeSort
    · intro a b c hab hbc
      simp only [decide_eq_true_eq] at hab hbc ⊢
      exact hbc.trans hab
    · intro a b
      simpa using Nat.le_total b.length a.length
  exact (ordered.imp of_decide_eq_true).sublist (distinctFrom_sublist _ _)

theorem longestFirst_ofTeams {α : Type} (teams : List (Team α)) :
    LongestFirst (ofTeams teams) where
  sorted := sorted_ofAliases _
  named := by
    intro e he
    obtain ⟨p, -, listed⟩ := mem_ofTeams he
    obtain ⟨name, known, rfl⟩ := List.mem_map.mp listed
    exact ne_nil_of_mem_distinctNamesFrom known
  aligned := by
    intro e he
    obtain ⟨p, -, listed⟩ := mem_ofTeams he
    exact aligned_ofTeam p e listed

end AliasDictionary

namespace Scan

def before? (t : Text) : Nat → Option Char
  | 0 => none
  | p + 1 => t[p]?

/-- Whether no Latin letter or digit touches the stretch of a text from `start` to `stop`. -/
structure StandsApart (t : Text) (start stop : Nat) : Prop where
  front : (before? t start).any Char.isAlphanum = false
  back : t[stop]?.any Char.isAlphanum = false

/-- Whether the name of an entry can be read at position `p` of a text: it is no word for an
outcome, its lower-case form stands there, and it stands apart if it has to. -/
structure Fits (e : TeamAlias) (t : Text) (p : Nat) : Prop where
  free : isReservedWord e.lowered = false
  spelled : e.lowered <+: (lowerInPlace t).drop p
  apart : mustStandApart e.name = true → StandsApart t p (p + e.length)

theorem accepts_iff {e : TeamAlias} (nonempty : e.lowered ≠ []) (t : Text) (p : Nat) :
    accepts e (before? t p) (t.drop p) ((lowerInPlace t).drop p) = true ↔ Fits e t p := by
  have apart : ((t.drop p).drop e.length).head? = t[p + e.length]? := by
    rw [List.drop_drop, List.head?_drop]
  simp only [accepts, apart, Bool.and_eq_true, List.isPrefixOf_iff_prefix, Bool.not_eq_true',
    List.isEmpty_eq_false_iff, Bool.or_eq_true, Bool.or_eq_false_iff]
  constructor
  · rintro ⟨⟨⟨spelled, -⟩, free⟩, bound⟩
    refine ⟨free, spelled, fun must => ?_⟩
    rcases bound with no | ⟨front, back⟩
    · rw [must] at no
      cases no
    · exact ⟨front, back⟩
  · rintro ⟨free, spelled, apart⟩
    refine ⟨⟨⟨spelled, nonempty⟩, free⟩, ?_⟩
    cases must : mustStandApart e.name with
    | false => exact .inl rfl
    | true => exact .inr ⟨(apart must).front, (apart must).back⟩

theorem Fits.inside {e : TeamAlias} {t : Text} {p : Nat} (h : Fits e t p)
    (aligned : e.length ≤ e.lowered.length) (nonempty : e.lowered ≠ []) :
    p + e.length ≤ t.length := by
  have room := h.spelled.length_le
  rw [List.length_drop, length_lowerInPlace] at room
  have positive := List.length_pos_of_ne_nil nonempty
  omega

/-- What is found from position `p` on when the leftmost longest names are taken one after another.
The names are apart from each other and inside the text; each is the name of an entry that fits
where it starts and than which none that fits there is longer; elsewhere no entry fits. -/
structure LeftmostFrom (dictionary : List TeamAlias) (t : Text) (p : Nat) (hits : List TeamSpan) :
    Prop where
  behind : ∀ h ∈ hits, p ≤ h.start
  ordered : hits.Pairwise fun a b => a.stop ≤ b.start
  nonempty : ∀ h ∈ hits, h.start < h.stop
  inside : ∀ h ∈ hits, h.stop ≤ t.length
  longest : ∀ h ∈ hits, ∃ e ∈ dictionary,
    h = ⟨e.teamId, e.teamName, e.name, h.start, h.start + e.length⟩ ∧ Fits e t h.start ∧
      ∀ x ∈ dictionary, Fits x t h.start → x.length ≤ e.length
  complete : ∀ q, p ≤ q → (∀ h ∈ hits, q < h.start ∨ h.stop ≤ q) → ∀ e ∈ dictionary, ¬Fits e t q

section

variable {dictionary : List TeamAlias} {t : Text} {p : Nat} {hits : List TeamSpan}

theorem leftmostFrom_nil (full : AliasDictionary.LongestFirst dictionary) (past : t.length ≤ p) :
    LeftmostFrom dictionary t p [] := by
  constructor
  case ordered => exact List.Pairwise.nil
  case complete =>
    intro q hq _ e he fits
    have positive := full.length_pos he
    have inside := fits.inside (full.aligned e he) (full.lowered_ne_nil he)
    omega
  all_goals simp

theorem LeftmostFrom.pass (h : LeftmostFrom dictionary t (p + 1) hits)
    (none : ∀ e ∈ dictionary, ¬Fits e t p) : LeftmostFrom dictionary t p hits := by
  refine ⟨fun x hx => Nat.le_of_succ_le (h.behind x hx), h.ordered, h.nonempty, h.inside,
    h.longest, ?_⟩
  intro q hq apart e he
  rcases hq.eq_or_lt with rfl | later
  · exact none e he
  · exact h.complete q later apart e he

theorem LeftmostFrom.take {e : TeamAlias} (h : LeftmostFrom dictionary t (p + e.length) hits)
    (he : e ∈ dictionary) (positive : 0 < e.length) (inside : p + e.length ≤ t.length)
    (fits : Fits e t p) (longest : ∀ x ∈ dictionary, Fits x t p → x.length ≤ e.length) :
    LeftmostFrom dictionary t p (⟨e.teamId, e.teamName, e.name, p, p + e.length⟩ :: hits) := by
  constructor
  case behind =>
    exact List.forall_mem_cons.mpr
      ⟨le_rfl, fun x hx => (Nat.le_add_right _ _).trans (h.behind x hx)⟩
  case ordered => exact List.pairwise_cons.mpr ⟨h.behind, h.ordered⟩
  case nonempty =>
    exact List.forall_mem_cons.mpr ⟨Nat.lt_add_of_pos_right positive, h.nonempty⟩
  case inside => exact List.forall_mem_cons.mpr ⟨inside, h.inside⟩
  case longest => exact List.forall_mem_cons.mpr ⟨⟨e, he, rfl, fits, longest⟩, h.longest⟩
  case complete =>
    intro q hq apart
    obtain ⟨outside, apart⟩ := List.forall_mem_cons.mp apart
    -- Such a position is not inside the name taken here.
    have later : p + e.length ≤ q := outside.resolve_left (not_lt.mpr hq)
    exact h.complete q later apart

theorem longest_of_entryAt? (full : AliasDictionary.LongestFirst dictionary) {e : TeamAlias}
    (found : entryAt? dictionary (before? t p) (t.drop p) ((lowerInPlace t).drop p) = some e) :
    e ∈ dictionary ∧ Fits e t p ∧ ∀ x ∈ dictionary, Fits x t p → x.length ≤ e.length := by
  have member := (of_entryAt? found).1
  obtain ⟨accepted, front, back, rfl, before⟩ := List.find?_eq_some_iff_append.mp found
  refine ⟨member, (accepts_iff (full.lowered_ne_nil member) t p).mp accepted, fun x hx fits => ?_⟩
  have takes := (accepts_iff (full.lowered_ne_nil hx) t p).mpr fits
  rcases List.mem_append.mp hx with hx | hx
  · have refused := before x hx
    rw [takes] at refused
    cases refused
  · rcases List.mem_cons.mp hx with rfl | hx
    · exact le_rfl
    · exact List.rel_of_pairwise_cons (List.pairwise_append.mp full.sorted).2.1 hx

theorem not_fits_of_entryAt?_eq_none (full : AliasDictionary.LongestFirst dictionary)
    (none : entryAt? dictionary (before? t p) (t.drop p) ((lowerInPlace t).drop p) = none) :
    ∀ e ∈ dictionary, ¬Fits e t p := by
  intro e he fits
  exact List.find?_eq_none.mp none e he ((accepts_iff (full.lowered_ne_nil he) t p).mpr fits)

theorem advance {pos : Nat} {c l : Char} {rest low : Text} (hr : c :: rest = t.drop pos)
    (hl : l :: low = (lowerInPlace t).drop pos) : some c = before? t (pos + 1) ∧
      rest = t.drop (pos + 1) ∧ low = (lowerInPlace t).drop (pos + 1) := by
  rw [← List.tail_drop, ← List.tail_drop, ← hr, ← hl, before?, ← List.head?_drop, ← hr]
  exact ⟨rfl, rfl, rfl⟩

/-- A scan that has come to position `pos`, with `skip` characters of the last name ahead, takes the
leftmost longest names behind them. -/
theorem leftmostFrom_hitsFrom (full : AliasDictionary.LongestFirst dictionary) {pos skip : Nat}
    {before : Option Char} {rest low : Text} (hb : before = before? t pos)
    (hr : rest = t.drop pos) (hl : low = (lowerInPlace t).drop pos) :
    LeftmostFrom dictionary t (pos + skip) (hitsFrom dictionary pos skip before rest low) := by
  fun_induction hitsFrom dictionary pos skip before rest low with
  | case1 pos before c rest l low skip ih =>
    obtain ⟨hb', hr', hl'⟩ := advance hr hl
    have behind := ih hb' hr' hl'
    rwa [Nat.add_right_comm] at behind
  | case2 pos before c rest l low e found ih =>
    obtain ⟨hb', hr', hl'⟩ := advance hr hl
    rw [hb, hr, hl] at found
    obtain ⟨member, fits, longest⟩ := longest_of_entryAt? full found
    have positive := full.length_pos member
    have inside := fits.inside (full.aligned e member) (full.lowered_ne_nil member)
    have behind := ih hb' hr' hl'
    rw [show pos + 1 + (e.length - 1) = pos + e.length by omega] at behind
    exact behind.take member positive inside fits longest
  | case3 pos before c rest l low none ih =>
    obtain ⟨hb', hr', hl'⟩ := advance hr hl
    rw [hb, hr, hl] at none
    exact (ih hb' hr' hl').pass (not_fits_of_entryAt?_eq_none full none)
  | case4 rest pos skip before low ended =>
    apply leftmostFrom_nil full
    by_contra within
    have here : pos < t.length := by omega
    have here' : pos < (lowerInPlace t).length := by rwa [length_lowerInPlace]
    rw [List.drop_eq_getElem_cons here] at hr
    rw [List.drop_eq_getElem_cons here'] at hl
    exact ended _ _ _ _ hr hl

end

/-- The scan of a text with a dictionary takes the leftmost longest names, from the beginning on. -/
theorem teamNames_leftmost {α : Type} [Scalar α] [Coercion α] {rows : List (ProviderRow α)}
    {dictionary : List TeamAlias} (built : AliasDictionary.ofRows rows = .ok dictionary)
    (t : Text) : LeftmostFrom dictionary t 0 (teamNames t dictionary) := by
  obtain ⟨teams, rfl⟩ : ∃ teams, AliasDictionary.ofTeams (α := α) teams = dictionary := by
    unfold AliasDictionary.ofRows at built
    cases read : rows.mapM ProviderRow.toTeam with
    | error e =>
      rw [read] at built
      cases built
    | ok teams =>
      rw [read] at built
      exact ⟨teams, Except.ok.inj built⟩
  have found : LeftmostFrom _ t (0 + 0) (hitsFrom _ 0 0 none t (lowerInPlace t)) :=
    leftmostFrom_hitsFrom (AliasDictionary.longestFirst_ofTeams teams) rfl rfl rfl
  exact found

/-- A team with a long name, a short one that has to stand apart, and one that spells an outcome. -/
def unitedRow : ProviderRow ℚ :=
  .team ⟨"utd".toList, "Man Utd".toList, ["man".toList, "胜".toList], 0, 0.5⟩

def unitedNames : List TeamAlias := [
  ⟨"Man Utd".toList, "man utd".toList, "utd".toList, "Man Utd".toList⟩,
  ⟨"man".toList, "man".toList, "utd".toList, "Man Utd".toList⟩,
  ⟨"胜".toList, "胜".toList, "utd".toList, "Man Utd".toList⟩]

theorem teamNames_leftmost_united : AliasDictionary.ofRows [unitedRow] = .ok unitedNames ∧
    LeftmostFrom unitedNames "MAN UTD 胜, woman man".toList 0
      (teamNames "MAN UTD 胜, woman man".toList unitedNames) ∧
    (teamNames "MAN UTD 胜, woman man".toList unitedNames).map (fun h => (h.start, h.stop)) =
      [(0, 7), (17, 20)] := by
  have built : AliasDictionary.ofRows [unitedRow] = .ok unitedNames := by
    have sorted : unitedNames.mergeSort (fun a b => b.length ≤ a.length) = unitedNames :=
      List.mergeSort_of_pairwise (by decide)
    have kept : AliasDictionary.distinctFrom [] unitedNames = unitedNames := by decide
    change Except.ok (AliasDictionary.distinctFrom [] (unitedNames.mergeSort _)) = _
    rw [sorted, kept]
  exact ⟨built, teamNames_leftmost built _, by decide⟩

end Scan

end Wager
