import Wager.Proofs.Entry.Foreign
import Wager.Proofs.Entry.Name
import Wager.Slip.Gap

/-!
# What a gap is read as

An entry of a gap is what a reader of entries made of some text, and a word is left over only when
no reader understands it.
-/

namespace Wager

variable {α : Type} [Scalar α]

theorem Reading.ofName_nil : (Reading.ofName [] : Reading α) = .other := by
  rfl

namespace Semantic

theorem reading_ofText (t : Text) : (ofText (α := α) t).reading =
    Reading.ofName (ofText (α := α) t).name := by
  unfold ofText
  dsimp only

/-- Whether an entry was read from some text as one of a market. -/
def IsRead (s : Semantic α) : Prop := ∃ t, GapReading.entry? t = some s

namespace IsRead

variable {s : Semantic α}

theorem eq_ofText (h : s.IsRead) : ∃ t, s = ofText t ∧ s.name ≠ [] ∧ s.market ≠ .other := by
  obtain ⟨t, read⟩ := h
  unfold GapReading.entry? at read
  dsimp only at read
  split at read
  next known =>
    obtain rfl := Option.some.inj read
    exact ⟨t, rfl, by simpa using known⟩
  next => cases read

theorem named (h : s.IsRead) : s.name ≠ [] := by
  obtain ⟨t, -, named, -⟩ := h.eq_ofText
  exact named

theorem isName (h : s.IsRead) : Text.IsName s.name := by
  obtain ⟨t, rfl, -⟩ := h.eq_ofText
  exact Text.isName_normalizeName t

theorem reading_eq (h : s.IsRead) : s.reading = Reading.ofName s.name := by
  obtain ⟨t, rfl, -⟩ := h.eq_ofText
  exact reading_ofText t

theorem known (h : s.IsRead) : (Reading.ofName (α := α) s.name).market ≠ .other := by
  obtain ⟨t, -, -, known⟩ := h.eq_ofText
  rwa [market, h.reading_eq] at known

theorem comma_notMem (h : s.IsRead) : ',' ∉ s.name :=
  Reading.comma_notMem_of_market_ne_other h.known

theorem ofText_name (h : s.IsRead) : ofText s.name = s := by
  obtain ⟨t, rfl, -⟩ := h.eq_ofText
  exact Semantic.ofText_name t

end IsRead

end Semantic

namespace GapReading

theorem market_of_entry?_eq_none {t : Text} (h : entry? (α := α) t = none) :
    (Semantic.ofText (α := α) t).market = .other := by
  unfold entry? at h
  by_cases blank : (Semantic.ofText (α := α) t).name = []
  · rw [Semantic.market, Semantic.reading_ofText, blank, Reading.ofName_nil]
    rfl
  · simpa [blank] using h

/-- A property that the parts of a gap have and that gaps take over from their parts. -/
structure Hereditary (P : GapReading α → Prop) : Prop where
  empty : P empty
  versus : P ⟨[], true, []⟩
  entry : ∀ {t s}, entry? t = some s → P ⟨[s], false, []⟩
  unread : ∀ {t}, entry? (α := α) t = none → P ⟨[], false, [t]⟩
  append : ∀ {g h}, P g → P h → P (g.append h)

namespace Hereditary

variable {P : GapReading α → Prop}

theorem foldl (hP : Hereditary P) {f : Text → GapReading α} (hf : ∀ t, P (f t))
    {g : GapReading α} (hg : P g) (texts : List Text) :
    P (texts.foldl (fun g t => g.append (f t)) g) := by
  induction texts generalizing g with
  | nil => exact hg
  | cons t texts ih => exact ih (hP.append hg (hf t))

theorem ofWord (hP : Hereditary P) (word : Text) : P (ofWord word) := by
  unfold GapReading.ofWord
  dsimp only
  split
  · exact hP.empty
  · split
    next read => exact hP.entry read
    next unread => exact hP.unread unread

theorem ofPart (hP : Hereditary P) (part : Text) : P (ofPart part) := by
  unfold GapReading.ofPart
  dsimp only
  split
  · exact hP.empty
  · split
    next read => exact hP.entry read
    next => exact hP.foldl hP.ofWord hP.empty _

theorem ofText (hP : Hereditary P) (t : Text) : P (ofText t) := by
  unfold GapReading.ofText
  dsimp only
  split
  · exact hP.empty
  · split
    next => exact hP.versus
    next => exact hP.foldl hP.ofPart hP.empty _

end Hereditary

/-- A gap that leaves only words behind that no reader of entries understands. -/
def LeavesUnreadable (g : GapReading α) : Prop :=
  ∀ word ∈ g.unknown, (Semantic.ofText (α := α) word).market = .other

theorem hereditary_leavesUnreadable : Hereditary (LeavesUnreadable (α := α)) where
  empty := by simp [LeavesUnreadable, empty]
  versus := by simp [LeavesUnreadable]
  entry := by simp [LeavesUnreadable]
  unread := by
    intro t unread word hw
    rw [List.mem_singleton.mp hw]
    exact market_of_entry?_eq_none unread
  append := by
    intro g h hg hh word hw
    rcases List.mem_append.mp hw with hw | hw
    · exact hg word hw
    · exact hh word hw

theorem leavesUnreadable_ofText (t : Text) : (ofText (α := α) t).LeavesUnreadable :=
  hereditary_leavesUnreadable.ofText t

theorem hereditary_isRead : Hereditary (α := α) fun g => ∀ s ∈ g.entries, s.IsRead where
  empty := by simp [empty]
  versus := by simp
  entry := by
    intro t s read s' hs
    rw [List.mem_singleton.mp hs]
    exact ⟨t, read⟩
  unread := by simp
  append := by
    intro g h hg hh s hs
    rcases List.mem_append.mp hs with hs | hs
    · exact hg s hs
    · exact hh s hs

theorem isRead_of_mem_ofText {t : Text} {s : Semantic α} (hs : s ∈ (ofText t).entries) :
    s.IsRead :=
  hereditary_isRead.ofText t s hs

end GapReading

end Wager
