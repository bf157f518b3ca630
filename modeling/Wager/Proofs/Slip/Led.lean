import Wager.Proofs.Slip.Number
import Wager.Slip.Extraction

/-!
# What begins a match

Every pattern of the extraction begins with one of a few words and marks, but for numbers in front
of their keyword.  Of a digit in front of a match it sees no more than whether it is ASCII.
-/

namespace Wager

open Text

structure SameKind (c d : Char) : Prop where
  left : isDigit c = true
  right : isDigit d = true
  ascii : c.isDigit = d.isDigit

theorem isIdeograph_of_isDigit {c : Char} (digit : isDigit c = true) :
    Extraction.isIdeograph c = false := by
  have apart : ∀ base ∈ digitZeros, base + 9 < 0x3400 ∨ 0x9FFF < base := by decide
  obtain ⟨base, member, low, high⟩ := exists_base_of_isDigit digit
  have outside := apart base member
  simp only [Extraction.isIdeograph, Bool.and_eq_false_iff, decide_eq_false_iff_not]
  omega

namespace Keyword

variable {β γ δ : Type}

theorem standsFree_of_sameKind {c d : Char} (h : SameKind c d) :
    standsFree (some c) = standsFree (some d) := by
  have left : (c == '_') = false := beq_eq_false_iff_ne.mpr (ne_of_isDigit h.left (by decide))
  have right : (d == '_') = false := beq_eq_false_iff_ne.mpr (ne_of_isDigit h.right (by decide))
  simp [standsFree, isLatinLetter_of_isDigit h.left, isLatinLetter_of_isDigit h.right, h.ascii,
    left, right]

/-- Whether a reader finds something only where one of these words or marks stands, and does not
tell digits of one kind in front of it apart. -/
structure Led (ws ms : List Text) (p : Option Char → Text → Option γ) : Prop where
  nothing : ∀ {t}, (∀ w ∈ ws, afterWord? w t = none) → (∀ m ∈ ms, mark? m t = none) →
    ∀ before, p before t = none
  behind : ∀ {c d}, SameKind c d → p (some c) = p (some d)

namespace Led

variable {ws ws' ms ms' : List Text} {p q : Option Char → Text → Option γ}

theorem bind (h : Led ws ms p) (f : γ → Option δ) :
    Led ws ms fun before t => (p before t).bind f where
  nothing words marks before := by rw [h.nothing words marks]; rfl
  behind kind := by rw [h.behind kind]

theorem orElse (hp : Led ws ms p) (hq : Led ws' ms' q) :
    Led (ws ++ ws') (ms ++ ms') fun before t => p before t <|> q before t where
  nothing words marks before := by
    rw [hp.nothing (fun w hw => words w (List.mem_append_left _ hw))
        fun m hm => marks m (List.mem_append_left _ hm),
      hq.nothing (fun w hw => words w (List.mem_append_right _ hw))
        fun m hm => marks m (List.mem_append_right _ hm)]
    rfl
  behind kind := by rw [hp.behind kind, hq.behind kind]

theorem guard {ok : Option Char → Bool} (same : ∀ {c d}, SameKind c d → ok (some c) = ok (some d))
    (h : Led ws ms p) :
    Led ws ms fun before t => (guard (ok before) : Option Unit).bind fun _ => p before t where
  nothing words marks before := by rw [h.nothing words marks]; cases ok before <;> rfl
  behind kind := by rw [same kind, h.behind kind]

theorem unguarded (h : Led ws ms p) (before : Option Char) : Led ws ms fun _ => p before :=
  ⟨fun words marks _ => h.nothing words marks before, fun _ => rfl⟩

end Led

section Words

variable {β : Type} (w : Text)

theorem led_afterWord? : Led [w] [] fun _ => afterWord? w :=
  ⟨fun words _ _ => words w List.mem_cons_self, fun _ => rfl⟩

theorem led_word? : Led [w] [] (word? w) :=
  .guard standsFree_of_sameKind ((led_afterWord? w).bind _)

theorem led_wordEnd? : Led [w] [] fun _ => wordEnd? w := (led_word? w).unguarded none

theorem led_mark? : Led [] [w] fun _ => mark? w :=
  ⟨fun _ marks _ => marks w List.mem_cons_self, fun _ => rfl⟩

theorem led_sideWord? : Led ["home".toList, "away".toList] [] fun before t =>
    if standsFree before then sideWord? t else none where
  nothing words _ before := by
    rw [sideWord?, words _ List.mem_cons_self, words _ (List.mem_cons_of_mem _ List.mem_cons_self)]
    exact ite_self none
  behind kind := by rw [standsFree_of_sameKind kind]

theorem led_sideCharacter? : Led [] [['主'], ['客']] fun _ => sideCharacter? where
  nothing {t} _ marks _ := by
    cases t with
    | nil => rfl
    | cons c t =>
      have home : c ≠ '主' := by
        rintro rfl
        simpa [mark?] using marks ['主'] List.mem_cons_self
      have away : c ≠ '客' := by
        rintro rfl
        simpa [mark?] using marks ['客'] (List.mem_cons_of_mem _ List.mem_cons_self)
      simp [sideCharacter?, home, away]
  behind _ := rfl

theorem led_sideAfter (value : Text → Option (β × Text)) :
    Led [w] [] (sided (sideAfter w) value) :=
  (Led.guard standsFree_of_sameKind ((led_afterWord? w).bind _)).bind _

theorem led_sideBefore (value : Text → Option (β × Text)) :
    Led ["home".toList, "away".toList] [['主'], ['客']] (sided (sideBefore w) value) :=
  ((led_sideWord?.orElse led_sideCharacter?).bind _).bind _

theorem led_codesAfter : Led ["tys".toList] [] codesAfter :=
  .guard standsFree_of_sameKind ((led_afterWord? _).bind _)

end Words

end Keyword

namespace Extraction

open Keyword

theorem led_remarkMarker : Led ["remark".toList, "note".toList] ["备注".toList] remarkMarker :=
  ((led_word? _).orElse ((led_word? _).orElse (led_mark? _))).bind _

theorem led_confLead : Led ["confidence".toList, "conf".toList] ["信心".toList] confLead :=
  (led_word? _).orElse ((led_word? _).orElse (led_mark? _))

theorem led_confTrail :
    Led ["confidence".toList, "conf".toList] ["信心".toList] fun _ => confTrail :=
  (led_wordEnd? _).orElse ((led_wordEnd? _).orElse (led_mark? _))

theorem led_oddsLead : Led ["odds".toList] ["赔率".toList, ['@']] oddsLead :=
  (led_word? _).orElse ((led_mark? _).orElse (led_mark? _))

theorem led_oddsTrail : Led ["odds".toList] ["赔率".toList] fun _ => oddsTrail :=
  (led_wordEnd? _).orElse (led_mark? _)

theorem led_fidTrail : Led ["fid".toList] [] fun _ => fidTrail := led_wordEnd? _

section Modes

variable {w : Text}

def isAscii (w : Text) : Bool := w.all fun c => c.toNat < 0x80

theorem modeWord_of_isAscii (ascii : isAscii w = true) :
    modeWord w = fun before t => (word? w before t).bind fun t =>
      (guard (!t.head?.any Char.isDigit) : Option Unit).bind fun _ => some ((), t) := by
  unfold isAscii at ascii
  funext before t
  rw [modeWord, if_pos ascii]
  rfl

theorem modeWord_of_not_isAscii (other : isAscii w = false) :
    modeWord w = fun before t => (guard (!before.any isIdeograph) : Option Unit).bind fun _ =>
      (mark? w t).bind fun t =>
        (guard (!t.head?.any isIdeograph) : Option Unit).bind fun _ => some ((), t) := by
  funext before t
  rw [modeWord, if_neg (by simpa [isAscii] using other)]
  rfl

theorem led_modeWord_of_isAscii (ascii : isAscii w = true) : Led [w] [] (modeWord w) :=
  modeWord_of_isAscii ascii ▸ (led_word? w).bind _

theorem led_modeWord_of_not_isAscii (other : isAscii w = false) : Led [] [w] (modeWord w) := by
  rw [modeWord_of_not_isAscii other]
  refine .guard (fun kind => ?_) ((led_mark? w).bind _)
  simp [isIdeograph_of_isDigit kind.left, isIdeograph_of_isDigit kind.right]

end Modes

end Extraction

end Wager
