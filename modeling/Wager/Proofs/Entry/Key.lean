import Wager.Proofs.Distribution.States
import Wager.Proofs.Entry.Total
import Wager.Proofs.Scalar.DoubleText

/-!
# Keys

The key of an entry that is in a market tells its market and all that it says.  Entries share a key
exactly when they are the same bet.
-/

namespace Wager

open Text

section Lines

variable {x y : Float}

theorem Scalar.exists_of_isWhole {α : Type} [Scalar α] {x : α} (h : isWhole x = true) :
    ∃ y : α, ofInt? (floor x) = some y ∧ x ≤ y ∧ y ≤ x := by
  unfold isWhole at h
  rw [Bool.and_eq_true] at h
  cases nearest : (ofInt? (floor x) : Option α) with
  | none => simp [nearest] at h
  | some y => exact ⟨y, rfl, by simpa [nearest] using h.2⟩

theorem isNumeric_lineText (h : Scalar.isFinite x = true) : Decimal.IsNumeric (lineText x) := by
  unfold lineText
  split
  · intro c hc
    refine (mem_ofInt hc).imp_right ?_
    rintro rfl
    decide
  · exact (Double.isNumeric_text h).1

theorem lineText_eq_iff (hx : Scalar.isFinite x = true) (hy : Scalar.isFinite y = true) :
    lineText x = lineText y ↔ x ≤ y ∧ y ≤ x := by
  rw [← beq_iff_le_and_le]
  -- A point or an exponent in one of two equal texts is in both.
  have apart {n : Int} {t : Text} (mark : '.' ∈ t ∨ 'e' ∈ t) : Text.ofInt n ≠ t := by
    rintro rfl
    rcases mark with mark | mark
    · exact absurd (mem_ofInt mark) (by decide)
    · exact absurd (mem_ofInt mark) (by decide)
  constructor
  · intro same
    unfold lineText at same
    split at same
    next wholex =>
      split at same
      next wholey =>
        obtain ⟨z, nearx, equalx⟩ := Scalar.exists_of_isWhole wholex
        obtain ⟨z', neary, equaly⟩ := Scalar.exists_of_isWhole wholey
        rw [ofInt_injective same, neary] at nearx
        obtain rfl := Option.some.inj nearx
        exact PartialEquivBEq.trans (beq_iff_le_and_le.mpr equalx)
          (PartialEquivBEq.symm (beq_iff_le_and_le.mpr equaly))
      next => exact absurd same (apart (Double.isNumeric_text hy).2)
    next =>
      split at same
      next => exact absurd same.symm (apart (Double.isNumeric_text hx).2)
      next =>
        obtain rfl := Double.text_injective hx hy same
        apply Float.beq_self_iff.mpr
        rintro rfl
        revert hx
        decide
  · intro equal
    obtain ⟨-, -, rfl | ⟨rfl, rfl⟩ | ⟨rfl, rfl⟩⟩ := Float.beq_iff_ne_nan_and_eq.mp equal
    · rfl
    · decide +kernel
    · decide +kernel

end Lines

section Keys

namespace Reading

variable {α : Type}

def line? : Reading α → Option α
  | .handicap line _ => some line
  | .total _ line => some line
  | _ => none

/-- Whether two readings say the same: the outcomes and scores are equal, the lines are the same
number. -/
def Agrees [LE α] : Reading α → Reading α → Prop
  | .score home away, .score home' away' => home = home' ∧ away = away'
  | .halfFull half full, .halfFull half' full' => half = half' ∧ full = full'
  | .handicap line outcome, .handicap line' outcome' =>
    (line ≤ line' ∧ line' ≤ line) ∧ outcome = outcome'
  | .total direction line, .total direction' line' =>
    direction = direction' ∧ line ≤ line' ∧ line' ≤ line
  | .result outcome, .result outcome' => outcome = outcome'
  | .other, .other => True
  | _, _ => False

/-- Readings whose line, if they have one, is a number. -/
def HasFiniteLine [Scalar α] (r : Reading α) : Prop := ∀ x ∈ r.line?, Scalar.isFinite x = true

section Read

variable [Scalar α] {t : Text} {r : Reading α}

theorem isFinite_of_ofText? {x : α} (read : Scalar.ofText? t = some x) :
    Scalar.isFinite x = true := by
  obtain ⟨y, -, kept⟩ := Option.bind_eq_some_iff.mp read
  unfold Scalar.finite? at kept
  split at kept
  next finite => exact Option.some.inj kept ▸ finite
  next => cases kept

omit [Scalar α] in
theorem exists_of_ofScore? (read : ofScore? (α := α) t = some r) :
    ∃ home away, r = .score home away := by
  unfold ofScore? at read
  dsimp only at read
  split at read
  · split at read
    · exact ⟨_, _, (Option.some.inj read).symm⟩
    · cases read
  · cases read

theorem exists_of_ofHandicap? (read : ofHandicap? (α := α) t = some r) :
    ∃ x o, r = .handicap x o ∧ Scalar.isFinite x = true := by
  unfold ofHandicap? ofLeadingLine? ofTrailingLine? at read
  simp only [Option.orElse_eq_orElse, Option.orElse_eq_or, Option.or_eq_some_iff,
    Option.bind_eq_bind, Option.bind_eq_some_iff, Option.pure_def, Option.some.injEq] at read
  rcases read with ⟨_, _, _, _, x, number, o, _, made⟩ |
    ⟨_, _, _, _, _, _, _, x, number, o, _, made⟩
  · exact ⟨x, o, made.symm, isFinite_of_ofText? number⟩
  · exact ⟨x, o, made.symm, isFinite_of_ofText? number⟩

theorem exists_of_ofTotal? (read : ofTotal? (α := α) t = some r) :
    ∃ d x, r = .total d x ∧ Scalar.isFinite x = true := by
  unfold ofTotal? ofLeadingDirection? ofTrailingDirection? at read
  simp only [Option.orElse_eq_orElse, Option.orElse_eq_or, Option.or_eq_some_iff,
    Option.bind_eq_bind, Option.bind_eq_some_iff, Option.pure_def, Option.some.injEq] at read
  rcases read with ⟨d, _, _, _, _, _, x, number, made⟩ | ⟨_, _, _, d, _, x, number, made⟩
  · exact ⟨d, x, made.symm, isFinite_of_ofText? number⟩
  · exact ⟨d, x, made.symm, isFinite_of_ofText? number⟩

theorem hasFiniteLine_ofName (t : Text) : (ofName (α := α) t).HasFiniteLine := by
  have lineless {r : Reading α} (none : r.line? = none) : r.HasFiniteLine := by
    simp [HasFiniteLine, none]
  unfold ofName
  cases read : (ofScore? t <|> ofHalfFull? t <|> ofHandicap? t <|> ofTotal? t <|> ofResult? t :
      Option (Reading α)) with
  | none => exact lineless rfl
  | some r =>
    rw [Option.getD_some]
    simp only [Option.orElse_eq_orElse, Option.orElse_eq_or, Option.or_eq_some_iff] at read
    rcases read with score | ⟨-, pair | ⟨-, handicap | ⟨-, total | ⟨-, result⟩⟩⟩⟩
    · obtain ⟨home, away, rfl⟩ := exists_of_ofScore? score
      exact lineless rfl
    · obtain ⟨half, full, rfl⟩ := exists_of_ofHalfFull? pair
      exact lineless rfl
    · obtain ⟨x, o, rfl, finite⟩ := exists_of_ofHandicap? handicap
      rintro _ ⟨⟩
      exact finite
    · obtain ⟨d, x, rfl, finite⟩ := exists_of_ofTotal? total
      rintro _ ⟨⟩
      exact finite
    · obtain ⟨o, -, rfl⟩ := Option.map_eq_some_iff.mp result
      exact lineless rfl

end Read

end Reading

def Market.ofKey (key : Text) : Market :=
  match splitWhere (· == ':') key with
  | [front, _] => if Direction.all.any (·.key == front) then .total else .handicap
  | _ =>
    match splitWhere (· == '-') key with
    | [front, _] => if Outcome.all.any (·.key == front) then .halfFull else .score
    | _ => .result

section

variable {x : Float}

theorem colon_notMem_lineText (finite : Scalar.isFinite x = true) : ':' ∉ lineText x :=
  fun hc => absurd (isNumeric_lineText finite ':' hc) (by decide)

theorem Outcome.marks_notMem_key (o : Outcome) : ':' ∉ o.key ∧ '-' ∉ o.key := by
  cases o <;> decide

theorem Outcome.key_ne_ofNat (o : Outcome) (n : Nat) : o.key ≠ Text.ofNat n := by
  intro same
  have letter : ∃ c ∈ o.key, c.isDigit = false := by
    cases o <;> exact ⟨_, List.mem_cons_self, rfl⟩
  obtain ⟨c, hc, mark⟩ := letter
  exact notMem_ofNat mark n (same ▸ hc)

theorem Direction.key_ne_lineText (d : Direction) (finite : Scalar.isFinite x = true) :
    d.key ≠ lineText x := by
  intro same
  have numeric := isNumeric_lineText finite
  rw [← same] at numeric
  cases d
  · exact absurd (numeric 'o' (by decide)) (by decide)
  · exact absurd (numeric 'u' (by decide)) (by decide)

theorem Direction.colon_notMem_key (d : Direction) : ':' ∉ d.key := by
  cases d <;> decide

end

theorem Market.ofKey_key {r : Reading Float} (finite : r.HasFiniteLine)
    (known : r.market ≠ .other) :
    Market.ofKey r.key = r.market := by
  have free {t : Text} {c : Char} (none : c ∉ t) : splitWhere (· == c) t = [t] :=
    splitWhere_of_none fun d hd => beq_eq_false_iff_ne.mpr fun same => none (same ▸ hd)
  have joined {x y : Text} {c : Char} (hx : c ∉ x) (hy : c ∉ y) :
      splitWhere (· == c) (x ++ c :: y) = [x, y] := by
    have cut := splitWhere_append_cons (p := (· == c)) (beq_self_eq_true c) x y
    rwa [free hx, free hy] at cut
  cases r with
  | score home away =>
    have colonless : ':' ∉ Text.ofNat home ++ '-' :: Text.ofNat away := by
      simp [notMem_ofNat (c := ':') (by decide)]
    have dash (n : Nat) : '-' ∉ Text.ofNat n := notMem_ofNat (by decide) n
    have unspelled : Outcome.all.any (·.key == Text.ofNat home) = false :=
      List.any_eq_false.mpr fun o _ same => o.key_ne_ofNat home (beq_iff_eq.mp same)
    rw [ofKey, Reading.key, free colonless, joined (dash home) (dash away)]
    simp only [unspelled]
    rfl
  | halfFull half full => cases half <;> cases full <;> rfl
  | handicap x o =>
    have number := finite x rfl
    have unspelled : Direction.all.any (·.key == lineText x) = false :=
      List.any_eq_false.mpr fun d _ same => d.key_ne_lineText number (beq_iff_eq.mp same)
    rw [ofKey, Reading.key, joined (colon_notMem_lineText number) o.marks_notMem_key.1]
    simp only [unspelled]
    rfl
  | total d x =>
    have spelled : Direction.all.any (·.key == d.key) = true := by
      cases d <;> rfl
    rw [ofKey, Reading.key, joined d.colon_notMem_key (colon_notMem_lineText (finite x rfl))]
    simp only [spelled]
    rfl
  | result outcome => cases outcome <;> rfl
  | other => exact absurd rfl known

theorem Direction.key_injective : Function.Injective Direction.key := by
  intro d e same
  cases d <;> cases e <;> first | rfl | cases same

/-- Two bets of one market share a key exactly when they agree. -/
theorem Reading.key_eq_iff_agrees {r s : Reading Float} (fr : r.HasFiniteLine)
    (fs : s.HasFiniteLine) (known : r.market ≠ .other) (market : r.market = s.market) :
    r.key = s.key ↔ r.Agrees s := by
  have cut {x y u v : Text} {c : Char} (hx : c ∉ x) (hy : c ∉ y) :
      x ++ c :: y = u ++ c :: v ↔ x = u ∧ y = v := by
    rw [List.append_cons_inj_of_notMem hx hy]
    tauto
  cases r <;> cases s <;> try cases market
  case score home away home' away' =>
    have dash (n : Nat) : '-' ∉ Text.ofNat n := notMem_ofNat (by decide) n
    rw [key, key, cut (dash home) (dash away), ofNat_injective.eq_iff, ofNat_injective.eq_iff]
    rfl
  case halfFull half full half' full' =>
    rw [key, key, cut half.marks_notMem_key.2 full.marks_notMem_key.2,
      Outcome.key_injective.eq_iff, Outcome.key_injective.eq_iff]
    rfl
  case handicap x o y p =>
    rw [key, key, cut (colon_notMem_lineText (fr x rfl)) o.marks_notMem_key.1,
      lineText_eq_iff (fr x rfl) (fs y rfl), Outcome.key_injective.eq_iff]
    rfl
  case total d x e y =>
    rw [key, key, cut d.colon_notMem_key (colon_notMem_lineText (fr x rfl)),
      lineText_eq_iff (fr x rfl) (fs y rfl), Direction.key_injective.eq_iff]
    rfl
  case result o p =>
    rw [key, key, Outcome.key_injective.eq_iff]
    rfl
  case other => exact absurd rfl known

theorem Reading.key_eq_iff {r s : Reading Float} (fr : r.HasFiniteLine) (fs : s.HasFiniteLine)
    (hr : r.market ≠ .other) (hs : s.market ≠ .other) :
    r.key = s.key ↔ r.market = s.market ∧ r.Agrees s := by
  constructor
  · intro same
    have market : r.market = s.market := by
      rw [← Market.ofKey_key fr hr, same, Market.ofKey_key fs hs]
    exact ⟨market, (key_eq_iff_agrees fr fs hr market).mp same⟩
  · rintro ⟨market, agree⟩
    exact (key_eq_iff_agrees fr fs hr market).mpr agree

theorem Semantic.key_of_market_ne {s : Semantic Float} (known : s.market ≠ .other) :
    s.key = s.reading.key := by
  obtain ⟨name, reading⟩ := s
  cases reading <;> first | rfl | exact absurd rfl known

/-- Two texts in markets share a key exactly when they are the same bet: the markets are equal, the
outcomes and scores are equal and the lines are the same number. -/
theorem Semantic.ofText_key_eq_iff {s t : Text} (hs : (ofText s : Semantic Float).market ≠ .other)
    (ht : (ofText t : Semantic Float).market ≠ .other) :
    (ofText s : Semantic Float).key = (ofText t : Semantic Float).key ↔
      (ofText s : Semantic Float).market = (ofText t : Semantic Float).market ∧
        (ofText s : Semantic Float).reading.Agrees (ofText t : Semantic Float).reading := by
  have finite (t : Text) : (ofText t : Semantic Float).reading.HasFiniteLine := by
    rw [ofText_eq]
    dsimp only
    exact Reading.hasFiniteLine_ofName _
  rw [key_of_market_ne hs, key_of_market_ne ht]
  exact Reading.key_eq_iff (finite s) (finite t) hs ht

theorem Semantic.ofText_key_eq_iff_zero :
    (ofText "主-0".toList : Semantic Float).market ≠ .other ∧
      (ofText "让球(+0.0)Home".toList : Semantic Float).market ≠ .other ∧
      (ofText "主-0".toList : Semantic Float).key =
        (ofText "让球(+0.0)Home".toList : Semantic Float).key := by
  have first : (ofText "主-0".toList : Semantic Float).market ≠ .other := by
    decide
  have second : (ofText "让球(+0.0)Home".toList : Semantic Float).market ≠ .other := by
    decide
  have agree : (ofText "主-0".toList : Semantic Float).reading.Agrees
      (ofText "让球(+0.0)Home".toList : Semantic Float).reading := by
    have left : (ofText "主-0".toList : Semantic Float).reading = .handicap (-0.0) .win := by
      decide
    have right : (ofText "让球(+0.0)Home".toList : Semantic Float).reading = .handicap 0.0 .win := by
      decide
    rw [left, right]
    exact ⟨by decide, rfl⟩
  exact ⟨first, second, (ofText_key_eq_iff first second).mpr ⟨by decide, agree⟩⟩

end Keys

end Wager
