import Wager.Proofs.Scalar.Rational
import Wager.Proofs.Slip.Spared
import Wager.Proofs.Text.Squeeze

/-!
# Scores stay in a slip

A score that stands in front of the remark stays in what remains of a slip.  No step of the
extraction matches any part of it, and all that a step takes out in front of it and behind it
would be taken out beside any other score of the same kind: nothing is read off the score.
-/

namespace Wager

open Text

theorem EndsLike.endsApart {front kept : Text} (h : EndsLike front kept) (apart : EndsApart front) :
    EndsApart kept := by
  rcases h with same | space
  · unfold EndsApart
    rwa [same]
  · rintro c last
    rw [space] at last
    obtain rfl := Option.some.inj last
    decide

namespace Pattern

variable {β : Type} {p : Pattern β}

theorem squeeze_sweepFrom (skip : Nat) (before : Option Char) (t : Text) :
    (squeeze (p.sweepFrom skip before t).2).Sublist (squeeze t) := by
  induction t generalizing skip before with
  | nil => exact .slnil
  | cons c t ih =>
    have shorter : (squeeze t).Sublist (squeeze (c :: t)) := (List.sublist_cons_self c t).filter _
    cases skip with
    | succ skip => exact (ih skip (some c)).trans shorter
    | zero =>
      rw [sweepFrom]
      split
      · exact (ih _ (some c)).trans shorter
      · exact squeeze_cons_sublist c (ih 0 (some c))

theorem sweepFrom_congr {b c : Option Char} (same : p b = p c) (skip : Nat) (t : Text) :
    p.sweepFrom skip b t = p.sweepFrom skip c t := by
  cases t with
  | nil => rfl
  | cons d t => cases skip <;> rw [sweepFrom, sweepFrom]; rw [same]

theorem findFrom_congr {b c : Option Char} (same : p b = p c) (t : Text) :
    p.findFrom b t = p.findFrom c t := by
  cases t with
  | nil => rfl
  | cons d t => rw [findFrom, findFrom, same]

end Pattern

namespace Keyword

variable {β : Type} {p : Pattern β} {front : Text}

open Pattern

/-- In front of a score a sweep reads and keeps the same whatever the score is; then it keeps the
score, and goes on behind it. -/
theorem Spares.sweepFrom (h : Spares p) (ascii : Bool) (apart : EndsApart front)
    (before : Option Char) : ∃ values kept, EndsLike front kept ∧
      (squeeze kept).Sublist (squeeze front) ∧
      ∀ s rest, IsScore s → s.head?.any Char.isDigit = ascii →
        p.sweepFrom 0 before (front ++ (s ++ rest)) =
          (values ++ (p.sweepFrom 0 s.getLast? rest).1,
            kept ++ (s ++ (p.sweepFrom 0 s.getLast? rest).2)) := by
  induction hn : front.length using Nat.strong_induction_on generalizing front before with
  | h n ih =>
    subst hn
    cases front with
    | nil =>
      refine ⟨[], [], .inl rfl, .slnil, fun s rest scored _ => ?_⟩
      obtain ⟨c, last, -⟩ := scored.exists_getLast
      rw [List.nil_append, sweepFrom_of_misses (h.misses scored before rest),
        behind_of_getLast? last, last]
      rfl
    | cons c r =>
      obtain ⟨read, tails, same⟩ := h.reads before ascii (c :: r) apart
      have shorter : (squeeze r).Sublist (squeeze (c :: r)) := (List.sublist_cons_self c r).filter _
      obtain ⟨values, kept, ends, fewer, later⟩ :=
        ih r.length (by simp) (apart.of_suffix (List.suffix_cons c r)) (some c) rfl
      cases read with
      | none =>
        refine ⟨values, c :: kept, ends.cons c, squeeze_cons_sublist c fewer,
          fun s rest scored kind => ?_⟩
        have missed := same (s ++ rest) (kind ▸ scored.beginsScore rest)
        rw [List.cons_append, Pattern.sweepFrom, ← List.cons_append, missed]
        simp only [Option.map_none, later s rest scored kind, List.cons_append]
      | some a =>
        rcases List.suffix_cons_iff.mp (tails a rfl) with whole | ⟨u, rfl⟩
        · -- Nothing was taken, so the sweep goes on behind one character.
          refine ⟨a.1 :: values, ' ' :: kept, ends.space (List.suffix_cons c r),
            fewer.trans shorter, fun s rest scored kind => ?_⟩
          have matched := same (s ++ rest) (kind ▸ scored.beginsScore rest)
          rw [List.cons_append, Pattern.sweepFrom, ← List.cons_append, matched]
          simp [whole, later s rest scored kind]
        · obtain ⟨values, kept, ends, fewer, later⟩ :=
            ih a.2.length (by simp) (apart.of_suffix (tails a rfl))
              (Pattern.behind (some c) u) rfl
          have fewer' : (squeeze a.2).Sublist (squeeze (c :: (u ++ a.2))) :=
            (tails a rfl).sublist.filter _
          refine ⟨a.1 :: values, ' ' :: kept, ends.space (tails a rfl), fewer.trans fewer',
            fun s rest scored kind => ?_⟩
          have matched := same (s ++ rest) (kind ▸ scored.beginsScore rest)
          rw [List.cons_append, List.append_assoc] at matched ⊢
          rw [sweepFrom_of_match matched, later s rest scored kind]
          rfl

/-- A search finds its first match in front of a score whatever the score is, or goes on behind
it. -/
theorem Spares.findFrom (h : Spares p) (ascii : Bool) (apart : EndsApart front)
    (before : Option Char) :
    (∃ x v t, (∃ cut, front = x ++ (cut ++ t)) ∧ ∀ s rest, IsScore s →
      s.head?.any Char.isDigit = ascii →
        p.findFrom before (front ++ (s ++ rest)) = some (x, v, t ++ (s ++ rest))) ∨
    ∀ s rest, IsScore s → s.head?.any Char.isDigit = ascii →
      p.findFrom before (front ++ (s ++ rest)) =
        (p.findFrom s.getLast? rest).map fun a => (front ++ (s ++ a.1), a.2) := by
  induction front generalizing before with
  | nil =>
    refine .inr fun s rest scored _ => ?_
    obtain ⟨c, last, -⟩ := scored.exists_getLast
    rw [List.nil_append, findFrom_of_misses (h.misses scored before rest),
      behind_of_getLast? last, last]
    rfl
  | cons c r ih =>
    obtain ⟨read, tails, same⟩ := h.reads before ascii (c :: r) apart
    cases read with
    | some a =>
      obtain ⟨cut, parts⟩ := tails a rfl
      refine .inl ⟨[], a.1, a.2, ⟨cut, parts.symm⟩, fun s rest scored kind => ?_⟩
      exact findFrom_of_some (same (s ++ rest) (kind ▸ scored.beginsScore rest))
    | none =>
      have step {s rest : Text} (scored : IsScore s) (kind : s.head?.any Char.isDigit = ascii) :
          p.findFrom before (c :: r ++ (s ++ rest)) =
            (p.findFrom (some c) (r ++ (s ++ rest))).map fun a => (c :: a.1, a.2) :=
        findFrom_of_none (same (s ++ rest) (kind ▸ scored.beginsScore rest))
      rcases ih (apart.of_suffix (List.suffix_cons c r)) (some c) with
        ⟨x, v, t, ⟨cut, rfl⟩, found⟩ | missed
      · refine .inl ⟨c :: x, v, t, ⟨cut, rfl⟩, fun s rest scored kind => ?_⟩
        rw [step scored kind, found s rest scored kind]
        rfl
      · refine .inr fun s rest scored kind => ?_
        rw [step scored kind, missed s rest scored kind, Option.map_map]
        rfl

end Keyword

theorem Pattern.startsLike_sweepFrom {β : Type} {p : Pattern β} (before : Option Char) (t : Text) :
    StartsLike t (p.sweepFrom 0 before t).2 := by
  cases t with
  | nil => exact .refl []
  | cons c t =>
    rw [Pattern.sweepFrom]
    split
    · rintro d ⟨⟩
      exact .inr rfl
    · exact fun d => .inl

/-- What a step leaves of the text in front of a score and of the text behind it. -/
structure Leaves (front back front' back' : Text) : Prop where
  ends : EndsLike front front'
  front : (squeeze front').Sublist (squeeze front)
  starts : StartsLike back back'
  back : (squeeze back').Sublist (squeeze back)

theorem Leaves.trans {front back front' back' front'' back'' : Text}
    (h : Leaves front back front' back') (h' : Leaves front' back' front'' back'') :
    Leaves front back front'' back'' :=
  ⟨h.ends.trans h'.ends, h'.front.trans h.front, h.starts.trans h'.starts, h'.back.trans h.back⟩

section Carries

variable {β γ δ : Type} {score other front back : Text}

theorem Alike.behind {p : Pattern β} (h : Keyword.Spares p) (scored : IsScore score)
    (alike : Alike score other) : p other.getLast? = p score.getLast? := by
  obtain ⟨c, last, digit⟩ := scored.exists_getLast
  obtain ⟨d, last', digit'⟩ := alike.isScore.exists_getLast
  have same := alike.back
  rw [last, last'] at same ⊢
  exact h.behind ⟨digit', digit, same⟩

/-- Whether a step leaves a score where it is, and does the same beside any other score of its
kind. -/
def Carries (score : Text) (step : Text → β × Text) : Prop :=
  ∀ front back, EndsApart front → ∃ v front' back', Leaves front back front' back' ∧
    ∀ other, Alike score other → step (front ++ (other ++ back)) = (v, front' ++ (other ++ back'))

theorem Carries.andThen {f : Text → β × Text} {g : Text → γ × Text} (hf : Carries score f)
    (hg : Carries score g) (join : β → γ → δ) :
    Carries score fun t => (join (f t).1 (g (f t).2).1, (g (f t).2).2) := by
  intro front back apart
  obtain ⟨v, front', back', left, same⟩ := hf front back apart
  obtain ⟨w, front'', back'', left', same'⟩ := hg front' back' (left.ends.endsApart apart)
  refine ⟨join v w, front'', back'', left.trans left', fun other alike => ?_⟩
  simp only [same other alike, same' other alike]

theorem Keyword.Spares.carries {p : Pattern β} (h : Spares p) (scored : IsScore score) :
    Carries score p.sweep := by
  intro front back apart
  obtain ⟨values, kept, ends, fewer, same⟩ :=
    h.sweepFrom (score.head?.any Char.isDigit) apart none
  let behind := p.sweepFrom 0 score.getLast? back
  refine ⟨values ++ behind.1, kept, behind.2,
    ⟨ends, fewer, Pattern.startsLike_sweepFrom score.getLast? back,
      Pattern.squeeze_sweepFrom 0 score.getLast? back⟩, fun other alike => ?_⟩
  rw [Pattern.sweep, same other back alike.isScore alike.front,
    Pattern.sweepFrom_congr (alike.behind h scored)]

/-- Whether a step that may fail leaves a score where it is, and does the same beside any other
score of its kind. -/
def CarriesIf (score : Text) (front back : Text) (step : Text → Option (β × Text)) : Prop :=
  ∃ o : Option (β × Text × Text), (∀ a ∈ o, Leaves front back a.2.1 a.2.2) ∧
    ∀ other, Alike score other →
      step (front ++ (other ++ back)) = o.map fun a => (a.1, a.2.1 ++ (other ++ a.2.2))

theorem CarriesIf.findSome? {step : γ → Text → Option (β × Text)} {l : List γ}
    (h : ∀ x ∈ l, CarriesIf score front back (step x)) :
    CarriesIf score front back fun t => l.findSome? fun x => step x t := by
  induction l with
  | nil => exact ⟨none, by simp, fun _ _ => rfl⟩
  | cons x l ih =>
    obtain ⟨first, later⟩ := List.forall_mem_cons.mp h
    obtain ⟨o, left, same⟩ := first
    cases o with
    | some a => exact ⟨some a, left, fun other alike => by simp [same other alike]⟩
    | none =>
      obtain ⟨o', left', same'⟩ := ih later
      refine ⟨o', left', fun other alike => ?_⟩
      simpa only [List.findSome?_cons, same other alike, Option.map_none] using same' other alike

theorem CarriesIf.orElse {f g : Text → Option (β × Text)} (hf : CarriesIf score front back f)
    (hg : CarriesIf score front back g) : CarriesIf score front back fun t => f t <|> g t := by
  obtain ⟨o, left, same⟩ := hf
  cases o with
  | some a => exact ⟨some a, left, fun other alike => by simp [same other alike]⟩
  | none =>
    obtain ⟨o', left', same'⟩ := hg
    exact ⟨o', left', fun other alike => by simp [same other alike, same' other alike]⟩

/-- The text with a space for the first match, and the value that this stands for. -/
def Pattern.cut? (p : Pattern Unit) (v : β) (t : Text) : Option (β × Text) :=
  (p.find t).map fun (front, _, tail) => (v, front ++ ' ' :: tail)

theorem Keyword.Spares.carriesIf_cut? {p : Pattern Unit} (h : Spares p)
    (tails : ∀ {before t tail}, p before t = some ((), tail) → tail <:+ t)
    (scored : IsScore score) (apart : EndsApart front) (v : β) :
    CarriesIf score front back (p.cut? v) := by
  rcases h.findFrom (score.head?.any Char.isDigit) apart none with
    ⟨x, u, t, ⟨cut, rfl⟩, found⟩ | missed
  · refine ⟨some (v, x ++ ' ' :: t, back), ?_, fun other alike => ?_⟩
    · rintro a ⟨⟩
      have ends : EndsLike (cut ++ t) (' ' :: t) := .space (.inl rfl) (List.suffix_append cut t)
      exact ⟨ends.append x, squeeze_cut_sublist x (List.suffix_append cut t), .refl back, .refl _⟩
    · rw [Pattern.cut?, Pattern.find, found other back alike.isScore alike.front]
      simp
  · refine ⟨(p.findFrom score.getLast? back).map fun a => (v, front, a.1 ++ ' ' :: a.2.2), ?_,
      fun other alike => ?_⟩
    · intro a ha
      obtain ⟨⟨y, u, tail⟩, found, rfl⟩ := Option.map_eq_some_iff.mp ha
      obtain ⟨rest, rfl, read⟩ := Pattern.eq_of_findFrom found
      exact ⟨.inl rfl, .refl _, startsLike_cut y, squeeze_cut_sublist y (tails read)⟩
    · rw [Pattern.cut?, Pattern.find, missed other back alike.isScore alike.front,
        Pattern.findFrom_congr (alike.behind h scored), Option.map_map, Option.map_map]
      congr 1
      funext a
      simp

end Carries

namespace Keyword

theorem spares_remarkMarker : Spares Extraction.remarkMarker := by
  have passes (before : Option Char) : Passes fun t => word? "remark".toList before t <|>
      word? "note".toList before t <|> mark? "备注".toList t :=
    (passes_word? (by decide) before).orElse
      ((passes_word? (by decide) before).orElse (passes_mark? (by decide)))
  refine Extraction.led_remarkMarker.spares (by decide) fun before => (passes before).bind ?_
  refine cast (congrArg Reads (funext fun t => ?_))
    ((keeps_skipMark (by decide : Digitless [':'])).pure ())
  unfold skipMark
  cases skipBlanks t with
  | nil => rfl
  | cons c rest => by_cases colon : c = ':' <;> simp [colon]

theorem spares_modeWord {w : Text} (scoreless : isScoreless w = true) :
    Spares (Extraction.modeWord w) := by
  have digitless := digitless_of_isScoreless scoreless
  cases ascii : Extraction.isAscii w with
  | true =>
    have apart : Tests fun t => !t.head?.any Char.isDigit :=
      tests_head fun ascii => ⟨ascii, fun _ _ same => same⟩
    have reads (before : Option Char) :=
      (passes_word? digitless before).bind (apart.reads (keeps_id.pure ()))
    exact (Extraction.led_modeWord_of_isAscii ascii).spares (by simp [scoreless]) fun before =>
      Extraction.modeWord_of_isAscii ascii ▸ reads before
  | false =>
    have apart : Tests fun t => !t.head?.any Extraction.isIdeograph :=
      tests_head fun _ => ⟨false, fun _ digit _ => isIdeograph_of_isDigit digit⟩
    have reads (before : Option Char) := (tests_const (!before.any Extraction.isIdeograph)).reads
      ((passes_mark? digitless).bind (apart.reads (keeps_id.pure ())))
    exact (Extraction.led_modeWord_of_not_isAscii ascii).spares (by simp [scoreless]) fun before =>
      Extraction.modeWord_of_not_isAscii ascii ▸ reads before

def markPattern (m : Text) : Pattern Unit := fun _ t => (mark? m t).map ((), ·)

theorem spares_markPattern {m : Text} (scoreless : isScoreless m = true) :
    Spares (markPattern m) := by
  have led : Led [] [m] (markPattern m) :=
    ⟨fun _ marks _ => by rw [markPattern, marks m List.mem_cons_self]; rfl, fun _ => rfl⟩
  exact led.spares (by simp [scoreless]) fun _ =>
    (passes_mark? (digitless_of_isScoreless scoreless)).map ()

theorem findFrom_markPattern {m : Text} (filled : m ≠ []) (before : Option Char) (t : Text) :
    (markPattern m).findFrom before t =
      (indexOf? m t).map fun i => (t.take i, (), t.drop (i + m.length)) := by
  induction t generalizing before with
  | nil =>
    cases m with
    | nil => exact absurd rfl filled
    | cons k m => rfl
  | cons c t ih =>
    rw [Pattern.findFrom, markPattern, mark?, indexOf?]
    cases here : m.isPrefixOf (c :: t) with
    | true => simp
    | false =>
      simp only [Bool.false_eq_true, if_false, Option.map_none, ih, Option.map_map]
      congr 1
      funext i
      simp [Nat.add_right_comm i 1]

end Keyword

namespace Extraction

variable {score front back : Text}

theorem takeLabel?_eq {t : Text} (undotted : '\u0130' ∉ t) :
    takeLabel? t = Mode.all.findSome? fun m => (Keyword.markPattern m.label).cut? m t := by
  unfold takeLabel?
  dsimp only
  congr 1
  funext m
  have filled : m.label ≠ [] := by cases m <;> decide
  rw [indexOf?_lower m.caseless_label undotted, Pattern.cut?, Pattern.find,
    Keyword.findFrom_markPattern filled, Option.map_map]
  rfl

theorem carriesIf_takeMode (scored : IsScore score) (apart : EndsApart front) :
    CarriesIf score front back fun t =>
      (Mode.all.findSome? fun m => (Keyword.markPattern m.label).cut? m t) <|> takeAlias? t := by
  refine .orElse (.findSome? fun m _ => ?_) (.findSome? fun (w, m) known => ?_)
  · have scoreless : Keyword.isScoreless m.label = true := by cases m <;> decide
    refine (Keyword.spares_markPattern scoreless).carriesIf_cut? (fun read => ?_) scored apart m
    obtain ⟨tail', read, same⟩ := Option.map_eq_some_iff.mp read
    cases same
    exact Keyword.eq_of_mark? read ▸ List.suffix_append _ _
  · have scoreless : (Mode.aliases.all fun a => Keyword.isScoreless a.1) = true := by decide
    refine (Keyword.spares_modeWord (List.all_eq_true.mp scoreless _ known)).carriesIf_cut?
      (fun read => ?_) scored apart m
    obtain ⟨name, rfl, -⟩ := exists_of_modeWord read
    exact List.suffix_append name _

theorem takeMode_append (scored : IsScore score) (apart : EndsApart front)
    (undotted : '\u0130' ∉ front ++ back) : ∃ mode front' back', Leaves front back front' back' ∧
      ∀ other, Alike score other →
        takeMode (front ++ (other ++ back)) = (mode, front' ++ (other ++ back')) := by
  have plain {other : Text} (alike : Alike score other) : '\u0130' ∉ front ++ (other ++ back) := by
    have free : '\u0130' ∉ other := fun dotted =>
      absurd (alike.isScore.isScoreChar _ dotted) (by decide)
    simp only [List.mem_append, not_or] at undotted ⊢
    exact ⟨undotted.1, free, undotted.2⟩
  obtain ⟨o, left, same⟩ : CarriesIf score front back fun t =>
      (Mode.all.findSome? fun m => (Keyword.markPattern m.label).cut? m t) <|> takeAlias? t :=
    carriesIf_takeMode scored apart
  cases o with
  | none =>
    refine ⟨none, front, back, ⟨.inl rfl, .refl _, .refl back, .refl _⟩, fun other alike => ?_⟩
    simp only [takeMode, takeLabel?_eq (plain alike), same other alike, Option.map_none]
  | some a =>
    refine ⟨some a.1, a.2.1, a.2.2, left a rfl, fun other alike => ?_⟩
    simp only [takeMode, takeLabel?_eq (plain alike), same other alike, Option.map_some]

theorem takeRemark_append (scored : IsScore score) (apart : EndsApart front)
    (unremarked : front ++ score <+: (takeRemark (front ++ (score ++ back))).2) :
    ∃ remark back', back' <+: back ∧ ∀ other, Alike score other →
      takeRemark (front ++ (other ++ back)) = (remark, front ++ (other ++ back')) := by
  have spares := Keyword.spares_remarkMarker
  rcases spares.findFrom (score.head?.any Char.isDigit) apart none with
    ⟨x, v, t, ⟨cut, rfl⟩, found⟩ | missed
  · -- A marker in front of the score would cut the score off.
    rw [takeRemark, Pattern.find, found score back scored rfl] at unremarked
    have shorter := unremarked.length_le
    have filled := List.length_pos_iff.mpr scored.ne_nil
    simp only [List.length_append] at shorter
    omega
  · cases marked : remarkMarker.findFrom score.getLast? back with
    | none =>
      refine ⟨[], back, List.prefix_rfl, fun other alike => ?_⟩
      rw [takeRemark, Pattern.find, missed other back alike.isScore alike.front,
        Pattern.findFrom_congr (alike.behind spares scored), marked]
      rfl
    | some a =>
      obtain ⟨rest, parts, -⟩ := Pattern.eq_of_findFrom marked
      refine ⟨trim a.2.2, a.1, ⟨rest, parts.symm⟩, fun other alike => ?_⟩
      rw [takeRemark, Pattern.find, missed other back alike.isScore alike.front,
        Pattern.findFrom_congr (alike.behind spares scored), marked]
      rfl

theorem carries_takeSided {β : Type} {w : Text} {value : Text → Option (β × Text)}
    (scoreless : Keyword.isScoreless w = true) (h : Keyword.Reads value) (scored : IsScore score) :
    Carries score (takeSided w value) :=
  ((Keyword.spares_sideAfter scoreless h).carries scored).andThen
    ((Keyword.spares_sideBefore (Keyword.digitless_of_isScoreless scoreless) h).carries scored)
    (· ++ ·)

theorem carries_takeNumbers {ws ms : List Text} {lead : Option Char → Text → Option Text}
    {trail : Text → Option Text} (led : Keyword.Led ws ms lead)
    (scoreless : (ws ++ ms).all Keyword.isScoreless = true)
    (leads : ∀ before, Keyword.Passes (lead before)) (trails : Keyword.Passes trail)
    (scored : IsScore score) : Carries score (takeNumbers lead trail) :=
  ((Keyword.spares_numbersAfter led scoreless leads).carries scored).andThen
    ((Keyword.spares_numberBefore trails).carries scored) (· ++ ·)

section Keywords

open Keyword

theorem carries_fse (scored : IsScore score) : Carries score (numbersAfter fseWord).sweep :=
  (spares_numbersAfter (led_word? _) (by decide) (passes_word? (by decide))).carries scored

theorem carries_conf (scored : IsScore score) : Carries score (takeNumbers confLead confTrail) :=
  carries_takeNumbers led_confLead (by decide)
    (fun before => (passes_word? (by decide) before).orElse
      ((passes_word? (by decide) before).orElse (passes_mark? (by decide))))
    ((passes_word? (by decide) none).orElse
      ((passes_word? (by decide) none).orElse (passes_mark? (by decide)))) scored

theorem carries_odds (scored : IsScore score) : Carries score (takeNumbers oddsLead oddsTrail) :=
  carries_takeNumbers led_oddsLead (by decide)
    (fun before => (passes_word? (by decide) before).orElse
      ((passes_mark? (by decide)).orElse (passes_mark? (by decide))))
    ((passes_word? (by decide) none).orElse (passes_mark? (by decide))) scored

theorem carries_fid (scored : IsScore score) : Carries score (takeNumbers fidLead fidTrail) :=
  carries_takeNumbers (led_word? _) (by decide) (passes_word? (by decide))
    (passes_word? (by decide) none) scored

end Keywords

theorem typed_append (scored : IsScore score) (apart : EndsApart front)
    (undotted : '\u0130' ∉ front ++ back)
    (unremarked : front ++ score <+: (takeRemark (front ++ (score ++ back))).2) :
    ∃ v front' back', Leaves front back front' back' ∧ ∀ other, Alike score other →
      typed (front ++ (other ++ back)) = (v, front' ++ (other ++ back')) := by
  obtain ⟨remark, back₁, part, remarked⟩ := takeRemark_append scored apart unremarked
  have undotted₁ : '\u0130' ∉ front ++ back₁ := by
    simp only [List.mem_append, not_or] at undotted ⊢
    exact ⟨undotted.1, fun h => undotted.2 (part.subset h)⟩
  obtain ⟨mode, front₂, back₂, left, named⟩ := takeMode_append scored apart undotted₁
  have fid := carries_fid scored
  have odds := (carries_odds scored).andThen fid Prod.mk
  have conf := (carries_conf scored).andThen odds Prod.mk
  have tys := (Keyword.spares_codesAfter.carries scored).andThen conf Prod.mk
  have tysSided := (carries_takeSided (w := "tys".toList) (by decide) Keyword.reads_endingCode?
    scored).andThen tys Prod.mk
  have fse := (carries_fse scored).andThen tysSided Prod.mk
  have steps := (carries_takeSided (w := "fse".toList) (by decide) Keyword.reads_numbers?
    scored).andThen fse Prod.mk
  obtain ⟨⟨fseSided, fseBoth, tysSided, tysBoth, conf, odds, fid⟩, front', back', left', taken⟩ :=
    steps front₂ back₂ (left.ends.endsApart apart)
  have whole : Leaves front back front back₁ :=
    ⟨.inl rfl, .refl _, startsLike_of_isPrefix part, part.sublist.filter _⟩
  refine ⟨{ remark, mode, fseSided, fseBoth, tysSided, tysBoth, conf, odds, fid }, front', back',
    (whole.trans left).trans left', fun other alike => ?_⟩
  have taken := taken other alike
  simp only [Prod.mk.injEq] at taken
  simp only [typed, remarked other alike, named other alike, taken]

variable {α : Type} [Scalar α]

/-- A score in front of the remark that no digit or point touches stays in what remains of the
slip, touched by nothing that did not touch it before; and any other score of its kind in its
place changes nothing but itself, so no value is read off it. -/
theorem ofText_score (scored : IsScore score) (apart : EndsApart front)
    (undotted : '\u0130' ∉ front ++ back)
    (unremarked : front ++ score <+: (takeRemark (front ++ score ++ back)).2) :
    ∃ before behind, LeftInFront front before ∧ LeftBehind back behind ∧
      (ofText (front ++ score ++ back) : Extraction α).residual = before ++ score ++ behind ∧
      ∀ other, Alike score other → (ofText (front ++ other ++ back) : Extraction α) =
        { (ofText (front ++ score ++ back) : Extraction α) with
          residual := before ++ other ++ behind } := by
  simp only [List.append_assoc] at unremarked ⊢
  obtain ⟨v, front', back', left, same⟩ := typed_append scored apart undotted unremarked
  have value {other : Text} (alike : Alike score other) :
      (ofText (front ++ (other ++ back)) : Extraction α) = ⟨v.params, v.remarks α,
        skipBlanks (collapse front') ++ (other ++ (collapse back').rdropWhile isBlank)⟩ := by
    rw [ofText_eq_typed, same other alike,
      trim_collapse_append alike.isScore.solid alike.isScore.ne_nil]
  refine ⟨_, _, leftInFront_skipBlanks left.ends left.front,
    leftBehind_rdropWhile left.starts left.back, ?_, fun other alike => ?_⟩
  · rw [value (.refl scored)]
  · rw [value alike, value (.refl scored)]

theorem ofText_score_between :
    let front := "热刺 conf 30 ".toList
    let back := " 3.5赔率 备注4-4".toList
    IsScore "2-1".toList ∧ ∃ before behind, LeftInFront front before ∧ LeftBehind back behind ∧
      (ofText (front ++ "2-1".toList ++ back) : Extraction ℚ).residual =
        before ++ "2-1".toList ++ behind ∧
      ∀ other, Alike "2-1".toList other → (ofText (front ++ other ++ back) : Extraction ℚ) =
        { (ofText (front ++ "2-1".toList ++ back) : Extraction ℚ) with
          residual := before ++ other ++ behind } := by
  intro front back
  have scored : IsScore "2-1".toList :=
    @IsScore.between ['2'] ['1'] '-' ⟨by simp, by simp; decide⟩ (.inl rfl)
      ⟨by simp, by simp; decide⟩
  have apart : EndsApart front := by
    rintro c ⟨⟩
    decide
  exact ⟨scored, ofText_score scored apart (by decide) (by decide +kernel)⟩

end Extraction

end Wager
