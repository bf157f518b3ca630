import Wager.Proofs.Entry.Beside
import Wager.Proofs.Text.Words
import Wager.Scalar.Double

/-!
# Results

A name that spells an outcome once its blanks are gone is read as that result, with one exception:
where both of its two words spell outcomes by themselves, they are a half-time/full-time pair.
-/

namespace Wager

open Text

variable {α : Type} [Scalar α] {n : Text} {o : Outcome}

/-- The spellings of one outcome that, with a space inside, are spellings of two. -/
def splitSpellings : List Text :=
  ["home win".toList, "away win".toList, "主 胜".toList, "客 胜".toList]

theorem Outcome.compact_mem_spellings (h : ofToken? n = some o) : compact n ∈ o.spellings := by
  simpa using List.find?_some h

theorem Text.IsName.compact_eq (h : IsName n) : compact n = squeeze (lower n) := by
  rw [compact, trim, h.bare.trimWhere_eq]

private theorem mem_splitSpellings_of_append {a b : Outcome} {x y : Text} (hx : x ∈ a.spellings)
    (hy : y ∈ b.spellings) (h : x ++ y ∈ o.spellings) : x ++ ' ' :: y ∈ splitSpellings := by
  have all : (Outcome.all.all fun a => Outcome.all.all fun b => Outcome.all.all fun o =>
      a.spellings.all fun x => b.spellings.all fun y =>
        !o.spellings.contains (x ++ y) || splitSpellings.contains (x ++ ' ' :: y)) = true := by
    rfl
  have member (o : Outcome) : o ∈ Outcome.all := by cases o <;> decide
  simp only [List.all_eq_true] at all
  have one := all a (member a) b (member b) o (member o) x hx y hy
  simpa [h] using one

/-- A split spelling of an outcome is the spelling of the outcome and a spelling of the win. -/
private theorem exists_of_mem_splitSpellings {t : Text} (h : t ∈ splitSpellings) :
    ∃ o : Outcome, ∃ x ∈ o.spellings, ∃ y ∈ Outcome.win.spellings,
      t = x ++ ' ' :: y ∧ Outcome.ofSpelling? (x ++ y) = some o := by
  simp only [splitSpellings, List.mem_cons, List.not_mem_nil, or_false] at h
  rcases h with rfl | rfl | rfl | rfl
  · exact ⟨.win, "home".toList, by decide, "win".toList, by decide, rfl, rfl⟩
  · exact ⟨.lose, "away".toList, by decide, "win".toList, by decide, rfl, rfl⟩
  · exact ⟨.win, "主".toList, by decide, "胜".toList, by decide, rfl, rfl⟩
  · exact ⟨.lose, "客".toList, by decide, "胜".toList, by decide, rfl, rfl⟩

theorem Outcome.isBlank_or_isWordChar (name : IsName n) (h : ofToken? n = some o) :
    ∀ c ∈ n, isBlank c = true ∨ isWordChar c = true := by
  apply isBlank_or_isWordChar_of_lower
  intro d hd solid
  have kept : d ∈ compact n := by
    rw [name.compact_eq]
    exact mem_squeeze solid hd
  exact o.letters_of_mem_spellings (compact_mem_spellings h) d kept

theorem Outcome.sigma_notMem (name : IsName n) (h : ofToken? n = some o) : '\u03A3' ∉ n :=
  fun sigma => absurd (isBlank_or_isWordChar name h _ sigma) (by decide)

theorem Outcome.isWordChar_of_part (name : IsName n) (h : ofToken? n = some o) {w : Text}
    (part : ∀ c ∈ w, c ∈ n) (unspaced : ' ' ∉ w) : ∀ c ∈ w, isWordChar c = true := by
  refine fun c hc => (isBlank_or_isWordChar name h c (part c hc)).resolve_left fun blank => ?_
  rw [name.spaced.blank_eq c (part c hc) blank] at hc
  exact unspaced hc

namespace Reading

variable {t : Text}

section Digitless

theorem mem_of_mem_closeSigns {c : Char} (h : c ∈ closeSigns t) : c ∈ t := by
  induction t with
  | nil => exact h
  | cons d t ih =>
    change c ∈ (if (d == '+' || d == '-') && (skipBlanks (closeSigns t)).head?.any isDigit
      then d :: skipBlanks (closeSigns t) else d :: closeSigns t) at h
    split at h
    · rcases List.mem_cons.mp h with rfl | h
      · exact List.mem_cons_self
      · exact List.mem_cons_of_mem d (ih ((List.dropWhile_sublist isBlank).subset h))
    · rcases List.mem_cons.mp h with rfl | h
      · exact List.mem_cons_self
      · exact List.mem_cons_of_mem d (ih h)

theorem mem_of_mem_dropHandicapWord {c : Char} (h : c ∈ dropHandicapWord t) : c ∈ t ∨ c = ' ' := by
  fun_induction dropHandicapWord t with
  | case1 t ih =>
    rcases List.mem_cons.mp h with rfl | h
    · exact .inr rfl
    · exact (ih h).imp_left fun later => List.mem_cons_of_mem _ (List.mem_cons_of_mem _ later)
  | case2 t _ ih =>
    rcases List.mem_cons.mp h with rfl | h
    · exact .inr rfl
    · exact (ih h).imp_left (List.mem_cons_of_mem _)
  | case3 d t _ _ ih =>
    rcases List.mem_cons.mp h with rfl | h
    · exact .inl List.mem_cons_self
    · exact (ih h).imp_left (List.mem_cons_of_mem d)
  | case4 => cases h

theorem mem_of_mem_handicapCore {c : Char} (h : c ∈ handicapCore t) : c ∈ t ∨ c = ' ' := by
  rcases mem_collapseFrom ((trimWhere_isInfixOf isBlank _).subset h) with h | rfl
  · rcases mem_of_mem_dropHandicapWord (mem_of_mem_closeSigns h) with h | rfl
    · obtain ⟨d, hd, rfl⟩ := List.mem_map.mp h
      split
      · exact .inr rfl
      · exact .inl hd
    · exact .inr rfl
  · exact .inr rfl

variable (digitless : ∀ c ∈ t, isDigit c = false)
include digitless

omit [Scalar α] in
theorem ofScore?_of_digitless : ofScore? (α := α) t = none :=
  ofScore?_of_front fun c hc => digitless c (List.mem_of_mem_head? hc)

theorem ofHandicap?_of_digitless : ofHandicap? (α := α) t = none := by
  have core : ∀ c ∈ handicapCore t, isDigit c = false := by
    intro c hc
    rcases mem_of_mem_handicapCore hc with hc | rfl
    · exact digitless c hc
    · rfl
  have behind : ∀ c ∈ skipBlanks ((handicapCore t).dropWhile isWordChar), isDigit c = false :=
    fun c hc => core c ((List.dropWhile_sublist _).subset ((List.dropWhile_sublist _).subset hc))
  simp [ofHandicap?, ofLeadingLine?, ofTrailingLine?, spanLine?_of_digitless core,
    spanLine?_of_digitless behind]

theorem ofTotal?_of_digitless : ofTotal? (α := α) t = none := by
  have core : ∀ c ∈ squeeze t, isDigit c = false :=
    fun c hc => digitless c (List.mem_of_mem_filter hc)
  have none : spanDecimal? (squeeze t) = none :=
    spanDecimal?_of_front fun c hc => core c (List.mem_of_mem_head? hc)
  have behind : spanDecimal? ((squeeze t).dropWhile (!isDigit ·)) = Option.none :=
    spanDecimal?_of_front fun c hc =>
      core c ((List.dropWhile_sublist _).subset (List.mem_of_mem_head? hc))
  simp [ofTotal?, ofLeadingDirection?, ofTrailingDirection?, none, behind]

theorem ofName_of_digitless : ofName (α := α) t = (ofHalfFull? t <|> ofResult? t).getD .other := by
  simp [ofName, ofScore?_of_digitless digitless, ofHandicap?_of_digitless digitless,
    ofTotal?_of_digitless digitless]

end Digitless

section Pairs

variable {a b : Outcome} {u v : Text}

omit [Scalar α]

theorem lower_space (free : '\u03A3' ∉ u ++ ' ' :: v) :
    lower (u ++ ' ' :: v) = lower u ++ ' ' :: lower v := by
  have front : '\u03A3' ∉ u := fun h => free (List.mem_append_left _ h)
  have behind : '\u03A3' ∉ v :=
    fun h => free (List.mem_append_right u (List.mem_cons_of_mem ' ' h))
  rw [lower_eq_flatMap free, lower_eq_flatMap front, lower_eq_flatMap behind,
    List.flatMap_append, List.flatMap_cons]
  rfl

theorem squeeze_space (hu : ∀ c ∈ u, isBlank c = false) (hv : ∀ c ∈ v, isBlank c = false) :
    squeeze (u ++ ' ' :: v) = u ++ v := by
  have kept {w : Text} (hw : ∀ c ∈ w, isBlank c = false) : w.filter (!isBlank ·) = w :=
    List.filter_eq_self.mpr fun c hc => by simp [hw c hc]
  rw [squeeze, List.filter_append, List.filter_cons_of_neg (by decide), kept hu, kept hv]

theorem words_space (hu : isWord u = true) (hv : isWord v = true) :
    words (u ++ ' ' :: v) = [u, v] := by
  rw [isWord_iff] at hu hv
  have solid {w : Text} (hw : ∀ c ∈ w, isWordChar c = true) : ∀ c ∈ w, isBlank c = false :=
    fun c hc => isBlank_of_isWordChar (hw c hc)
  rw [words, splitWhere_append_cons (by decide), splitWhere_of_none (solid hu.2),
    splitWhere_of_none (solid hv.2)]
  simp [hu.1, hv.1]

theorem ofSpacedPair?_of_lower (hu : lower u ∈ a.spellings) (hv : lower v ∈ b.spellings) :
    ofSpacedPair? (α := α) (u ++ ' ' :: v) = some (.halfFull a b) := by
  rw [ofSpacedPair?, words_space (a.isWord_of_lower hu) (b.isWord_of_lower hv)]
  simp [ofWords?, Outcome.ofToken?_of_lower hu, Outcome.ofToken?_of_lower hv]

end Pairs

theorem dashed_eq (free : ∀ c ∈ ['-', '/', '|', '>', '→'], c ∉ t) : dashed t = t := by
  have undashed : '-' ∉ t := free '-' (by decide)
  have joined : t.map (fun c => if c == '/' || c == '|' || c == '>' || c == '→' then '-' else c) =
      t := by
    refine (List.map_congr_left fun c hc => if_neg fun joiner => free c ?_ hc).trans (List.map_id t)
    simp only [Bool.or_eq_true, beq_iff_eq] at joiner
    rcases joiner with ((rfl | rfl) | rfl) | rfl <;> decide
  rw [dashed, joined, dropBlanksBefore_of_notMem undashed]
  exact dropBlanksBehind_of_notMem undashed

omit [Scalar α] in
theorem ofPairedCharacters?_of_outcome (spelled : Outcome.ofToken? n = some o) :
    ofPairedCharacters? (α := α) n = none := by
  let letters := ['w', 'd', 'l', 'W', 'D', 'L']
  let ideographs := ['胜', '平', '负']
  have apart : ((letters ++ ideographs).all fun half => (letters ++ ideographs).all fun full =>
      (Outcome.ofToken? [half, full]).isNone) = true := by
    decide
  rw [ofPairedCharacters?.eq_def]
  split
  next half full =>
    rw [if_neg]
    intro both
    simp only [isPairLetter, isPairCharacter, Bool.or_eq_true, Bool.and_eq_true,
      List.contains_iff_mem] at both
    have member : half ∈ letters ++ ideographs ∧ full ∈ letters ++ ideographs :=
      both.elim
        (And.imp (List.mem_append_left ideographs) (List.mem_append_left ideographs))
        (And.imp (List.mem_append_right letters) (List.mem_append_right letters))
    have none := List.all_eq_true.mp (List.all_eq_true.mp apart half member.1) full member.2
    rw [spelled] at none
    cases none
  next => rfl

section Spelled

variable (name : IsName n) (spelled : Outcome.ofToken? n = some o)
include name spelled

omit [Scalar α]

theorem ofJoinedWords?_of_outcome : ofJoinedWords? (α := α) n = none := by
  cases read : ofJoinedWords? (α := α) n with
  | none => rfl
  | some r =>
    obtain ⟨half, full, keys, -⟩ := ofJoinedWords?_eq_some read
    have other : Outcome.ofSpelling? (squeeze (half.key ++ full.key)) = none := by
      cases half <;> cases full <;> rfl
    rw [Outcome.ofToken?, name.compact_eq, keys, other] at spelled
    cases spelled

/-- The only pair that a spelling of one outcome can be is one with a space between its halves. -/
theorem ofHalfFull?_of_outcome : ofHalfFull? (α := α) n = ofSpacedPair? n := by
  have free {c : Char} (solid : isBlank c = false) (noLetter : isWordChar c = false) : c ∉ n := by
    intro hc
    simpa [solid, noLetter] using Outcome.isBlank_or_isWordChar name spelled c hc
  have joinerless : ∀ c ∈ ['-', '/', '|', '>', '→'], c ∉ n := by
    intro c hc
    simp only [List.mem_cons, List.not_mem_nil, or_false] at hc
    rcases hc with rfl | rfl | rfl | rfl | rfl <;> exact free (by decide) (by decide)
  have undashed : ∀ c ∈ n, (c == '-') = false := by
    intro c hc
    rw [beq_eq_false_iff_ne]
    rintro rfl
    exact joinerless '-' (by decide) hc
  have bare : n.filter (· != '-') = n :=
    List.filter_eq_self.mpr fun c hc => by simp [bne, undashed c hc]
  have dashedPair : ofDashedPair? (α := α) n = none := by
    rw [ofDashedPair?, splitWhere_of_none undashed]
  simp [ofHalfFull?, dashed_eq joinerless, bare, dashedPair,
    ofPairedCharacters?_of_outcome spelled, ofJoinedWords?_of_outcome name spelled]

theorem ofSpacedPair?_of_splitSpellings (split : lower n ∈ splitSpellings) :
    ofSpacedPair? (α := α) n = some (.halfFull o .win) := by
  obtain ⟨p, x, hx, y, hy, halves, own⟩ := exists_of_mem_splitSpellings split
  have solid {q : Outcome} {w : Text} (hw : w ∈ q.spellings) : ∀ c ∈ w, isBlank c = false :=
    fun c hc => isBlank_of_isWordChar (q.letters_of_mem_spellings hw c hc).1
  have unspaced {q : Outcome} {w : Text} (hw : w ∈ q.spellings) : ' ' ∉ w :=
    fun space => absurd (solid hw _ space) (by decide)
  obtain rfl : p = o := by
    rw [Outcome.ofToken?, name.compact_eq, halves, squeeze_space (solid hx) (solid hy), own]
      at spelled
    exact Option.some.inj spelled
  -- The space of the lower case is one of the name itself.
  have space : ' ' ∈ n := by
    by_contra absent
    have word := Outcome.isWordChar_of_part name spelled (fun _ => id) absent
    have none := isBlank_of_mem_lower word ' ' (by rw [halves]; simp)
    revert none
    decide
  obtain ⟨u, v, same, first⟩ := List.eq_append_cons_of_mem space
  subst same
  rw [lower_space (Outcome.sigma_notMem name spelled), eq_comm,
    List.append_cons_inj_of_notMem (unspaced hx) (unspaced hy)] at halves
  obtain ⟨rfl, -, rfl⟩ := halves
  exact ofSpacedPair?_of_lower hx hy

/-- A spelling of an outcome that is a pair of two outcomes with a space between them is split. -/
theorem mem_splitSpellings_of_ofSpacedPair? {r : Reading α} (read : ofSpacedPair? n = some r) :
    lower n ∈ splitSpellings := by
  obtain ⟨half, full, cut, read⟩ := ofSpacedPair?_eq_some read
  obtain ⟨a, b, first, second, -⟩ := ofWords?_eq_some read
  have same : half ++ ' ' :: full = n := by
    have joined := join_words name.spaced name.bare
    rwa [cut, join_cons half (List.cons_ne_nil full []), List.append_assoc] at joined
  have unspaced {w : Text} (hw : w ∈ words n) : ' ' ∉ w :=
    fun space => absurd (isBlank_of_mem_words hw _ space) (by decide)
  have halves : ' ' ∉ half ∧ ' ' ∉ full := by
    rw [cut] at unspaced
    exact ⟨unspaced (by simp), unspaced (by simp)⟩
  subst same
  have front := Outcome.isWordChar_of_part name spelled (by simp +contextual) halves.1
  have behind := Outcome.isWordChar_of_part name spelled (by simp +contextual) halves.2
  have whole := Outcome.compact_mem_spellings spelled
  rw [lower_space (Outcome.sigma_notMem name spelled)]
  rw [name.compact_eq, lower_space (Outcome.sigma_notMem name spelled),
    squeeze_space (isBlank_of_mem_lower front) (isBlank_of_mem_lower behind)] at whole
  apply mem_splitSpellings_of_append _ _ whole (a := a) (b := b)
  · simpa [compact_of_word front] using Outcome.compact_mem_spellings first
  · simpa [compact_of_word behind] using Outcome.compact_mem_spellings second

end Spelled

/-- A spelling of an outcome is the result, unless its two words are the outcome and a win. -/
theorem ofName_of_outcome (name : IsName n) (spelled : Outcome.ofToken? n = some o) :
    ofName (α := α) n = if lower n ∈ splitSpellings then .halfFull o .win else .result o := by
  have letters := Outcome.isBlank_or_isWordChar name spelled
  have digitless : ∀ c ∈ n, isDigit c = false := by
    intro c hc
    rcases letters c hc with blank | word
    · by_contra digit
      rw [(wordless_of_isDigit (Bool.not_eq_false _ ▸ digit)).solid] at blank
      cases blank
    · exact isDigit_of_isWordChar word
  rw [ofName_of_digitless digitless, ofHalfFull?_of_outcome name spelled]
  split
  next split => rw [ofSpacedPair?_of_splitSpellings name spelled split]; rfl
  next whole =>
    have unpaired : ofSpacedPair? (α := α) n = none := by
      rw [Option.eq_none_iff_forall_ne_some]
      exact fun r read => whole (mem_splitSpellings_of_ofSpacedPair? name spelled read)
    simp [unpaired, ofResult?, spelled]

end Reading

/-- A text whose normalized name spells an outcome is that result, in whatever case and with
whatever blanks it is typed.  Only a name whose two words spell outcomes by themselves is read
before that, as a half-time/full-time pair. -/
theorem Semantic.ofText_of_outcome {t : Text} (h : Outcome.ofToken? (normalizeName t) = some o) :
    (lower (normalizeName t) ∉ splitSpellings →
      (ofText t : Semantic α).market = .result ∧ (ofText t : Semantic α).key = o.key) ∧
    (lower (normalizeName t) ∈ splitSpellings →
      (ofText t : Semantic α).reading = .halfFull o .win) := by
  rw [ofText_eq, Reading.ofName_of_outcome (isName_normalizeName t) h]
  constructor
  · intro whole
    rw [if_neg whole]
    exact ⟨rfl, rfl⟩
  · intro split
    rw [if_pos split]

/-- Typed with stray blanks and a comma the home win is the result; with its two words apart it is
the pair. -/
theorem Semantic.ofText_of_outcome_home_win :
    Outcome.ofToken? (normalizeName "　h O m E w i n，".toList) = some .win ∧
      (ofText "　h O m E w i n，".toList : Semantic Float).market = .result ∧
      (ofText "　h O m E w i n，".toList : Semantic Float).key = "win".toList ∧
      (ofText "主　胜".toList : Semantic Float).reading = .halfFull .win .win := by
  have token : Outcome.ofToken? (normalizeName "　h O m E w i n，".toList) = some .win := by
    decide
  have result := (ofText_of_outcome (α := Float) token).1 (by decide)
  have pair := (ofText_of_outcome (α := Float) (t := "主　胜".toList) (o := .win) (by decide)).2
  exact ⟨token, result.1, result.2, pair (by decide)⟩

/-- The two readers of outcome spellings disagree about an away win in two words. -/
theorem Semantic.exists_outcome_ne_result :
    ¬∀ (t : Text) (o : Outcome), Outcome.ofToken? (normalizeName t) = some o →
      (ofText t : Semantic Float).market = .result ∧
        (ofText t : Semantic Float).key = o.key := by
  intro agree
  have result := (agree "away win".toList .lose (by decide)).1
  have pair : (ofText "away win".toList : Semantic Float).market = .halfFull := by
    decide
  rw [pair] at result
  cases result

end Wager
