import Wager.Proofs.Slip.Parse

/-!
# Remarks say nothing

A remark runs to the end of its slip.  Where its marker stands, and with it all that is left in
front of the remark, depends on the text before the marker alone, and nothing but the notes of the
drafts reads the remark.
-/

namespace Wager

open Text

theorem isSome_bind_of_isSome {β γ : Type} {o : Option β} {f : β → Option γ}
    (some_value : ∀ x, (f x).isSome = true) : (o.bind f).isSome = o.isSome := by
  cases o with
  | none => rfl
  | some x => exact some_value x

namespace Text

theorem collapseFrom_append_cons {c : Char} (solid : isBlank c = false) (inRun : Bool)
    (t rest : Text) :
    collapseFrom inRun (t ++ c :: rest) = collapseFrom inRun t ++ c :: collapseFrom false rest := by
  induction t generalizing inRun with
  | nil => simp [collapseFrom, solid]
  | cons d t ih =>
    cases blank : isBlank d <;> cases inRun <;> simp [collapseFrom, blank, ih]

theorem trim_append_cons {c : Char} (solid : isBlank c = false) (t rest : Text) :
    trim (t ++ c :: rest) = skipBlanks t ++ c :: rest.rdropWhile isBlank := by
  have front : (t ++ c :: rest).dropWhile isBlank = skipBlanks t ++ c :: rest := by
    rw [List.dropWhile_append, skipBlanks]
    split
    next blank => simp [List.isEmpty_iff.mp blank, solid]
    next => rfl
  have back : (rest.reverse ++ c :: (skipBlanks t).reverse).dropWhile isBlank =
      rest.reverse.dropWhile isBlank ++ c :: (skipBlanks t).reverse := by
    rw [List.dropWhile_append]
    split
    next blank => simp [List.isEmpty_iff.mp blank, solid]
    next => rfl
  rw [trim, trimWhere, front, List.reverse_append, List.reverse_cons, List.append_assoc,
    List.singleton_append, back]
  simp [List.rdropWhile]

theorem normalize_append_cons {c : Char} (solid : isBlank c = false) (plain : halfWidth c = c)
    (t rest : Text) : normalize (t ++ c :: rest) =
      skipBlanks (collapse (t.map halfWidth)) ++
        c :: (collapseFrom false (rest.map halfWidth)).rdropWhile isBlank := by
  rw [normalize, List.map_append, List.map_cons, plain, collapse, collapseFrom_append_cons solid,
    trim_append_cons solid]
  rfl

theorem afterWord?_append_cons {w : Text} {c : Char} (foreign : ∀ k ∈ w, sameLetter k c = false)
    (t rest : Text) :
    afterWord? w (t ++ c :: rest) = (afterWord? w t).map (· ++ c :: rest) := by
  induction w generalizing t with
  | nil => cases t <;> rfl
  | cons k w ih =>
    have later := ih fun k' hk => foreign k' (List.mem_cons_of_mem k hk)
    cases t with
    | nil => simp [afterWord?, foreign k List.mem_cons_self]
    | cons d t =>
      rw [List.cons_append, afterWord?, afterWord?]
      split
      · exact later t
      · rfl

end Text

namespace Pattern

variable {β : Type} {p : Pattern β} {before : Option Char} {c : Char} {rest tail : Text} {value : β}

theorem findFrom_of_some (found : p before (c :: rest) = some (value, tail)) :
    p.findFrom before (c :: rest) = some ([], value, tail) := by
  rw [findFrom, found]

theorem findFrom_of_none (missed : p before (c :: rest) = none) :
    p.findFrom before (c :: rest) =
      (p.findFrom (some c) rest).map fun (front, value, tail) => (c :: front, value, tail) := by
  rw [findFrom, missed]

end Pattern

namespace Keyword

theorem endsWord_append_cons {c : Char} (foreign : isLatinLetter c = false) (t rest : Text) :
    endsWord (t ++ c :: rest) = endsWord t := by
  cases t <;> simp [endsWord, foreign]

/-- A Latin word in front of a foreign character is found or missed without what follows. -/
theorem word?_append_cons {w : Text} {c : Char} (foreign : ∀ k ∈ w, sameLetter k c = false)
    (noLetter : isLatinLetter c = false) (before : Option Char) (t rest : Text) :
    word? w before (t ++ c :: rest) = (word? w before t).map (· ++ c :: rest) := by
  unfold word?
  rw [afterWord?_append_cons foreign]
  cases standsFree before with
  | false => rfl
  | true =>
    cases h : afterWord? w t with
    | none => rfl
    | some tail =>
      have same := endsWord_append_cons noLetter tail rest
      cases ends : endsWord tail <;> simp [same, ends, guard]

end Keyword

namespace Extraction

def remarkMark : Text := ['备', '注']

def remarked (t remark : Text) : Text := t ++ remarkMark ++ remark

theorem remarked_eq (t remark : Text) : remarked t remark = (t ++ ['备']) ++ '注' :: remark := by
  simp [remarked, remarkMark]

theorem normalize_remarked (t : Text) :
    ∃ front, ∀ remark, ∃ tail, normalize (remarked t remark) = remarked front tail := by
  refine ⟨skipBlanks (collapse (t.map halfWidth)), fun remark => ?_⟩
  have solid : isBlank '备' = false := by decide
  refine ⟨(collapseFrom false (remark.map halfWidth)).rdropWhile isBlank, ?_⟩
  have marked : collapse ((t ++ ['备']).map halfWidth) = collapse (t.map halfWidth) ++ ['备'] := by
    rw [List.map_append, collapse, collapse]
    exact collapseFrom_append_cons solid false _ []
  have front : skipBlanks (collapse (t.map halfWidth) ++ ['备']) =
      skipBlanks (collapse (t.map halfWidth)) ++ ['备'] := by
    rw [skipBlanks, List.dropWhile_append, skipBlanks]
    split
    next blank => simp [List.isEmpty_iff.mp blank, solid]
    next => rfl
  rw [remarked_eq, normalize_append_cons (by decide) rfl, marked, front, remarked_eq]

theorem isSome_remarkMarker (before : Option Char) (t : Text) :
    (remarkMarker before t).isSome = ((Keyword.word? "remark".toList before t).isSome ||
      (Keyword.word? "note".toList before t).isSome || (Keyword.mark? remarkMark t).isSome) := by
  -- A marker that was read goes on to the remark, with a colon or without.
  refine (isSome_bind_of_isSome fun rest => ?_).trans ?_
  · split <;> rfl
  · cases Keyword.word? "remark".toList before t <;> cases Keyword.word? "note".toList before t <;>
      rfl

/-- Whether a marker begins in the text in front of a remark does not hang on the remark. -/
theorem isSome_remarkMarker_remarked (before : Option Char) (c : Char) (t remark : Text) :
    (remarkMarker before (remarked (c :: t) remark)).isSome =
      (remarkMarker before (c :: t)).isSome := by
  have word {w : Text} (latin : ∀ k ∈ w, sameLetter k '备' = false) :
      (Keyword.word? w before (remarked (c :: t) remark)).isSome =
        (Keyword.word? w before (c :: t)).isSome := by
    have split : remarked (c :: t) remark = (c :: t) ++ '备' :: ('注' :: remark) := by
      simp [remarked, remarkMark]
    rw [split, Keyword.word?_append_cons latin (by decide), Option.isSome_map]
  have mark : (Keyword.mark? remarkMark (remarked (c :: t) remark)).isSome =
      (Keyword.mark? remarkMark (c :: t)).isSome := by
    cases t with
    | nil => simp [Keyword.mark?, remarked, remarkMark]
    | cons d t =>
      simp only [Keyword.mark?, remarked, remarkMark, List.cons_append, List.isPrefixOf]
      split <;> rfl
  have latin : (∀ k ∈ "remark".toList, sameLetter k '备' = false) ∧
      ∀ k ∈ "note".toList, sameLetter k '备' = false := by simp [sameLetter]
  rw [isSome_remarkMarker, isSome_remarkMarker, word latin.1, word latin.2, mark]

theorem remarked_cons (c : Char) (t remark : Text) :
    remarked (c :: t) remark = c :: remarked t remark := rfl

/-- The first marker of a slip with a remark stands at a place that does not hang on the remark. -/
theorem findFrom_remarked (before : Option Char) (t : Text) : ∃ front, ∀ remark, ∃ tail,
    remarkMarker.findFrom before (remarked t remark) = some (front, (), tail) := by
  induction t generalizing before with
  | nil =>
    refine ⟨[], fun remark => ?_⟩
    have here : (remarkMarker before (remarked [] remark)).isSome = true := by
      simp [isSome_remarkMarker, Keyword.mark?, remarked, remarkMark]
    obtain ⟨⟨_, tail⟩, found⟩ := Option.isSome_iff_exists.mp here
    exact ⟨tail, Pattern.findFrom_of_some found⟩
  | cons c t ih =>
    have same := isSome_remarkMarker_remarked before c t
    cases here : (remarkMarker before (c :: t)).isSome with
    | true =>
      refine ⟨[], fun remark => ?_⟩
      obtain ⟨⟨_, tail⟩, found⟩ := Option.isSome_iff_exists.mp ((same remark).trans here)
      exact ⟨tail, Pattern.findFrom_of_some found⟩
    | false =>
      obtain ⟨front, later⟩ := ih (some c)
      refine ⟨c :: front, fun remark => ?_⟩
      obtain ⟨tail, found⟩ := later remark
      have missed : remarkMarker before (c :: remarked t remark) = none := by
        have none_found := (same remark).trans here
        rwa [remarked_cons, Option.isSome_eq_false_iff, Option.isNone_iff_eq_none] at none_found
      exact ⟨tail, by rw [remarked_cons, Pattern.findFrom_of_none missed, found]; rfl⟩

theorem takeRemark_remarked (t : Text) :
    ∃ front, ∀ remark, (takeRemark (remarked t remark)).2 = front := by
  obtain ⟨front, found⟩ := findFrom_remarked none t
  refine ⟨front, fun remark => ?_⟩
  obtain ⟨tail, marked⟩ := found remark
  rw [takeRemark, Pattern.find, marked]

variable {α : Type} [Scalar α]

/-- All that is taken out of a slip behind its remark is taken out of the text in front of it. -/
theorem ofText_eq_of_takeRemark {t₁ t₂ : Text} (same : (takeRemark t₁).2 = (takeRemark t₂).2) :
    (ofText t₁ : Extraction α) = { (ofText t₂ : Extraction α) with
      params := { (ofText t₂ : Extraction α).params with remark := (takeRemark t₁).1 } } := by
  simp only [ofText, same]

end Extraction

def Draft.withoutNote {α : Type} (d : Draft α) : Draft α := { d with note := [] }

theorem trust_withoutNote {α : Type} (drafts : List (Draft α)) (levels : List Level) :
    trust (drafts.map Draft.withoutNote) levels = trust drafts levels := by
  simp only [trust, List.isEmpty_map, List.all_map]
  rfl

namespace Parse

/-- Whether two parses differ in nothing but the notes of their drafts and the remark itself. -/
structure SameBets {α : Type} (p q : Parse α) : Prop where
  drafts : p.drafts.map Draft.withoutNote = q.drafts.map Draft.withoutNote
  diagnostics : p.diagnostics = q.diagnostics
  trust : p.trust = q.trust
  rules : p.rules = q.rules

variable {α : Type}

theorem sameBets_ofMatches (config : Config α) (e : Extraction α) (remark : Text)
    (found : List (Fixture α)) : SameBets
      (ofMatches config { e with params := { e.params with remark } } found)
      (ofMatches config e found) := by
  have drafts : (ofMatches config { e with params := { e.params with remark } } found).drafts.map
      Draft.withoutNote = (ofMatches config e found).drafts.map Draft.withoutNote := by
    rw [drafts_ofMatches, drafts_ofMatches, List.map_zipWith, List.map_zipWith]
    rfl
  have diagnostics :
      (ofMatches config { e with params := { e.params with remark } } found).diagnostics =
        (ofMatches config e found).diagnostics := by
    simp only [ofMatches, flatMap_draftsOf]
    rfl
  refine ⟨drafts, diagnostics, ?_, rfl⟩
  have value (e : Extraction α) : (ofMatches config e found).trust =
      Wager.trust (ofMatches config e found).drafts
        ((ofMatches config e found).diagnostics.map (·.level)) := rfl
  rw [value, value, ← trust_withoutNote, drafts, trust_withoutNote, diagnostics]

variable [Scalar α] [SimilarNames]

def ofExtraction (e : Extraction α) (dictionary : List TeamAlias) (directory : List (Team α))
    (config : Config α) : Parse α :=
  let hits := Scan.teamNames e.residual dictionary
  if hits.isEmpty then teamless e directory
  else ofMatches config e (Fixture.list (Segment.list e.residual hits))

theorem ofContent_eq (t : Text) (dictionary : List TeamAlias) (directory : List (Team α))
    (config : Config α) : ofContent t dictionary directory config =
      ofExtraction (Extraction.ofText (normalize t)) dictionary directory config := rfl

theorem sameBets_ofExtraction (e : Extraction α) (remark : Text) (dictionary : List TeamAlias)
    (directory : List (Team α)) (config : Config α) : SameBets
      (ofExtraction { e with params := { e.params with remark } } dictionary directory config)
      (ofExtraction e dictionary directory config) := by
  unfold ofExtraction
  dsimp only
  split
  · exact ⟨rfl, rfl, rfl, rfl⟩
  · exact sameBets_ofMatches config e remark _

theorem sameBets_ofContent {t₁ t₂ : Text} (same : (Extraction.takeRemark (normalize t₁)).2 =
    (Extraction.takeRemark (normalize t₂)).2) (dictionary : List TeamAlias)
    (directory : List (Team α)) (config : Config α) :
    SameBets (ofContent t₁ dictionary directory config)
      (ofContent t₂ dictionary directory config) := by
  rw [ofContent_eq, ofContent_eq, Extraction.ofText_eq_of_takeRemark same]
  exact sameBets_ofExtraction _ _ dictionary directory config

/-- What is written in a remark changes no bet: two slips with the same text in front of their
remarks have the same matches in all but the note, the same diagnostics and rules and the same
trust. -/
theorem sameBets_remarked (t remark₁ remark₂ : Text) (dictionary : List TeamAlias)
    (directory : List (Team α)) (config : Config α) :
    SameBets (ofText (t ++ "备注".toList ++ remark₁) dictionary directory config)
      (ofText (t ++ "备注".toList ++ remark₂) dictionary directory config) := by
  have content (remark : Text) : isEmptySlip (t ++ "备注".toList ++ remark) = false := by
    have solid : isBlank '备' = false := by decide
    simp [isEmptySlip, solid]
  rw [ofText, ofText, content, content, if_neg Bool.false_ne_true, if_neg Bool.false_ne_true]
  obtain ⟨front, normal⟩ := Extraction.normalize_remarked t
  obtain ⟨before, taken⟩ := Extraction.takeRemark_remarked front
  obtain ⟨tail₁, first⟩ := normal remark₁
  obtain ⟨tail₂, second⟩ := normal remark₂
  apply sameBets_ofContent
  calc (Extraction.takeRemark (normalize (Extraction.remarked t remark₁))).2
      = before := by rw [first, taken]
    _ = (Extraction.takeRemark (normalize (Extraction.remarked t remark₂))).2 := by
      rw [second, taken]

end Parse

end Wager
