import Wager.Proofs.Slip.EntryText
import Wager.Proofs.Slip.Quotes
import Wager.Stake.Basic

/-!
# Stakes before and after storing

A stored match carries all that sizing reads off its draft, so a ticket of stored matches gets the
same stake as the drafts it was made of.
-/

namespace Wager

section

variable {α : Type} [Scalar α]

namespace SizedMatch

structure Agrees (a b : SizedMatch α) : Prop where
  mode : a.mode = b.mode
  distribution : ∀ defaultOdds, a.distribution defaultOdds = b.distribution defaultOdds

theorem agrees_swap (m : SizedMatch α)
    (same : m.fallbackOdds.orElse m.odds = m.odds.orElse m.fallbackOdds) :
    m.Agrees { m with fallbackOdds := m.odds, odds := m.fallbackOdds } where
  mode := rfl
  distribution := by
    intro defaultOdds
    unfold distribution
    dsimp only
    rw [same]
    rfl

end SizedMatch

theorem distributions_congr {a b : List (SizedMatch α)} (agree : List.Forall₂ SizedMatch.Agrees a b)
    (config : Config α) : Stake.distributions a config = Stake.distributions b config := by
  unfold Stake.distributions
  induction agree with
  | nil => rfl
  | cons same _ ih => rw [List.mapM_cons, List.mapM_cons, same.distribution, ih]

theorem Stake.ofMatches_congr {a b : List (SizedMatch α)}
    (agree : List.Forall₂ SizedMatch.Agrees a b) (config : Config α) :
    ofMatches a config = ofMatches b config := by
  have modes : a.map (·.mode) = b.map (·.mode) := by
    rw [← List.forall₂_eq_eq_eq, List.forall₂_map_left_iff, List.forall₂_map_right_iff]
    exact agree.imp fun _ _ same => same.mode
  rw [ofMatches, ofMatches, modes, distributions_congr agree]

namespace Draft

theorem label_stored {d : Draft α} (range : d.InRange) : d.stored.mode.label = d.mode := by
  obtain ⟨m, label⟩ := range.mode
  rw [stored, label, Mode.ofLabel?_label]
  rfl

theorem codes_stored {d : Draft α} (range : d.InRange) :
    [d.stored.tysHome.code] = d.tysHome ∧ [d.stored.tysAway.code] = d.tysAway := by
  obtain ⟨home, code_home⟩ := range.tysHome
  obtain ⟨away, code_away⟩ := range.tysAway
  simp only [stored, code_home, code_away, Tys.ofCode?_code]
  exact ⟨rfl, rfl⟩

end Draft

/-- Sizing finds the same in a stored draft, except that its price is in the other place. -/
theorem SizedMatch.ofStored_stored {d : Draft α} (range : d.InRange)
    (named : d.entries.filter (!·.name.isEmpty) = d.entries)
    (onRung : Fid.rungOf? d.fid = some d.fid) :
    ofStored d.stored =
      { ofDraft d with fallbackOdds := .null, odds := Datum.ofOption d.fallbackOdds } := by
  have fid : d.stored.fid = d.fid := by rw [Draft.stored, onRung, Option.getD_some]
  have entries : d.stored.entries = d.entries.map fun e => ⟨e.name, e.odds⟩ := by
    rw [Draft.stored, Draft.storedEntries, named]
  rw [ofStored, Draft.label_stored range, (Draft.codes_stored range).1,
    (Draft.codes_stored range).2, fid, entries, List.map_map]
  rfl

theorem Draft.hasShortTeams_of_toStored [Coercion α] {d : Draft α} {r : StoredMatch α}
    (h : d.toStored = .ok r) : d.HasShortTeams := by
  obtain ⟨entries, -, h⟩ := eq_ok_of_bind h
  obtain ⟨-, passes⟩ := StoredMatch.passes_of_ofChecked h
  have home := passes.homeTeam
  have away := passes.awayTeam
  rw [Check.fieldOr_of_lookup rfl] at home away
  exact ⟨StoredMatch.length_of_checkTeam_text (Checked.eq_ok_of_under home),
    StoredMatch.length_of_checkTeam_text (Checked.eq_ok_of_under away)⟩

end

theorem Datum.ofOption_orElse_null {price : Option Float} (above : ∀ x ∈ price, 1.0 < x) :
    (ofOption price).orElse .null = Datum.null.orElse (ofOption price) := by
  cases price with
  | none => rfl
  | some x =>
    have filled : (ofOption (some x)).isVoid = false :=
      Scalar.isZero_eq_false_of_one_lt (above x rfl)
    rw [orElse, filled, if_neg Bool.false_ne_true]
    rfl

section

variable [SimilarNames] [Coercion Float]

theorem Draft.agrees_stored {t : Text} {dictionary : List TeamAlias}
    {directory : List (Team Float)} {d : Draft Float}
    (hd : d ∈ (Parse.ofText t dictionary directory Config.standard).drafts)
    {r : StoredMatch Float} (h : d.toStored = .ok r) :
    (SizedMatch.ofDraft d).Agrees (SizedMatch.ofStored r) := by
  have range := inRange_of_mem_ofText hd (hasShortTeams_of_toStored h)
  have onRung := Fid.rungOf?_of_mem_rungs d.fid range.fid
  have same : r = d.stored := by
    rw [toStored_eq range (by rw [onRung]; rfl)] at h
    split at h
    · cases h
    · split at h
      · cases h
      · exact (Except.ok.inj h).symm
  rw [same, SizedMatch.ofStored_stored range (filter_named hd) onRung]
  exact SizedMatch.agrees_swap (SizedMatch.ofDraft d) (Datum.ofOption_orElse_null range.odds)

/-- A slip whose drafts can all be stored gets the same stake before and after that. -/
theorem Stake.ofMatches_stored {t : Text} {dictionary : List TeamAlias}
    {directory : List (Team Float)} {records : List (StoredMatch Float)}
    (stored : (Parse.ofText t dictionary directory Config.standard).drafts.mapM Draft.toStored =
      .ok records) (config : Config Float) :
    ofMatches ((Parse.ofText t dictionary directory Config.standard).drafts.map
        SizedMatch.ofDraft) config = ofMatches (records.map SizedMatch.ofStored) config := by
  have each := forall₂_of_mapM_ok stored
  apply ofMatches_congr
  rw [List.forall₂_map_left_iff, List.forall₂_map_right_iff]
  rw [List.forall₂_iff_zip] at each ⊢
  refine each.imp_right fun same d r pair => ?_
  exact Draft.agrees_stored (List.of_mem_zip pair).1 (same pair)

end

/-- A slip with two matches, one of them with a price and no entry. -/
def Parse.pairedSlip : Text := "胜狼队 热刺@1.8 2.4".toList

def Parse.paired : Parse Float := ofText pairedSlip [wolves, spurs] [] Config.standard

theorem Stake.ofMatches_stored_paired : ∃ records : List (StoredMatch Float),
    Parse.paired.drafts.mapM Draft.toStored = .ok records ∧
      records.map (·.odds) = [none, some 2.4] ∧
      ofMatches (Parse.paired.drafts.map SizedMatch.ofDraft) Config.standard =
        ofMatches (records.map SizedMatch.ofStored) Config.standard := by
  have drafted : Parse.paired.drafts.mapM Draft.toStored =
      .ok (Parse.paired.drafts.map Draft.stored) ∧
        (Parse.paired.drafts.map Draft.stored).map (·.odds) = [none, some 2.4] := by
    decide
  obtain ⟨stored, prices⟩ := drafted
  exact ⟨_, stored, prices, ofMatches_stored stored Config.standard⟩

end Wager
