import Wager.Config.Environment
import Wager.Proofs.Kelly.Optimal
import Wager.Proofs.Outsized
import Wager.Proofs.Parlay.Normalized
import Wager.Proofs.Scalar.Double
import Wager.Proofs.Scalar.Real
import Wager.Stake.Basic

/-!
# The divisor of a stake

A stake is divided by the mean divisor of the modes where that is a positive number, and otherwise
by the configured one, which may be anything: no setting is checked.
-/

namespace Wager.Stake

section

variable {α : Type} [Scalar α]

def meanOf (modes : List (Datum α)) (config : Config α) : α :=
  Scalar.sum (modes.map (divisorOf · config)) / Scalar.ofNat modes.length

def HasMean (modes : List (Datum α)) (config : Config α) : Prop :=
  modes ≠ [] ∧ Scalar.isFinite (meanOf modes config) = true ∧ 0.0 < meanOf modes config

instance (modes : List (Datum α)) (config : Config α) : Decidable (HasMean modes config) :=
  inferInstanceAs (Decidable (¬(modes = []) ∧ _ ∧ _))

def HasDivisor (modes : List (Datum α)) (config : Config α) : Prop :=
  HasMean modes config ∨ 0.0 < config.kellyDivisor

/-- Whether the risk cap and the rating of a ticket can be read. -/
def Readable (expectedRating : Datum α) (config : Config α) : Prop :=
  (∃ riskCap, config.riskCap = .ok riskCap) ∧ expectedRating.isOutsized = false

theorem meanDivisor_eq_ite (modes : List (Datum α)) (config : Config α) :
    meanDivisor modes config =
      if HasMean modes config then meanOf modes config else config.kellyDivisor := by
  cases modes with
  | nil => simp [meanDivisor, HasMean]
  | cons m modes => simp [meanDivisor, HasMean, meanOf]

theorem meanDivisor_pos_iff (modes : List (Datum α)) (config : Config α) :
    0.0 < meanDivisor modes config ↔ HasDivisor modes config := by
  rw [meanDivisor_eq_ite, HasDivisor]
  split
  next mean => exact iff_of_true mean.2.2 (.inl mean)
  next none => simp [none]

section

variable {p : Parlay α} {modes : List (Datum α)} {expectedRating : Datum α} {config : Config α}

theorem recommend_of_unreadable (p : Parlay α) (modes : List (Datum α))
    (unreadable : ¬Readable expectedRating config) :
    ∃ e, recommend p modes expectedRating config = .error e ∧ e ≠ .zeroDivisor := by
  rw [recommend, Datum.numberOr_eq_ite]
  cases cap : config.riskCap with
  | error e => exact ⟨.rounding e, rfl, nofun⟩
  | ok riskCap =>
    have outsized : expectedRating.isOutsized = true := by simpa [Readable, cap] using unreadable
    rw [outsized]
    exact ⟨.overflow .integerTooLarge, rfl, nofun⟩

theorem recommend_of_readable {riskCap : Int} (cap : config.riskCap = .ok riskCap)
    (inRange : expectedRating.isOutsized = false) :
    let rating := Scalar.clamp (expectedRating.readable?.getD 0.0) 0.0 1.0
    let divisor := meanDivisor modes config
    let raw := config.initialCapital * kellyOf p config / divisor
    recommend p modes expectedRating config =
      if kellyOf p config ≤ 0.0 then
        .ok ⟨0.0, divisor, rating, liftOf rating, riskCap, 0.0, 0, .noGrowth⟩
      else if Scalar.isZero divisor then .error .zeroDivisor
      else ((Scalar.round (raw * liftOf rating)).mapError .rounding).bind fun rounded =>
        .ok ⟨kellyOf p config, divisor, rating, liftOf rating, riskCap, raw,
          amountOf rounded riskCap, reasonOf rounded riskCap⟩ := by
  rw [recommend, cap, Datum.numberOr_eq_ite, inRange]
  rfl

/-- Sizing divides by zero where a ticket grows and its divisor is zero, and nowhere else. -/
theorem recommend_eq_zeroDivisor_iff :
    recommend p modes expectedRating config = .error .zeroDivisor ↔
      Readable expectedRating config ∧ ¬kellyOf p config ≤ 0.0 ∧
        Scalar.isZero (meanDivisor modes config) = true := by
  by_cases readable : Readable expectedRating config
  · obtain ⟨riskCap, cap⟩ := readable.1
    rw [recommend_of_readable cap readable.2]
    by_cases idle : kellyOf p config ≤ 0.0
    · simp [idle]
    by_cases zero : Scalar.isZero (meanDivisor modes config) = true
    · simp [idle, zero, readable]
    · rw [if_neg idle, if_neg zero]
      cases Scalar.round (config.initialCapital * kellyOf p config / meanDivisor modes config *
          liftOf (Scalar.clamp (expectedRating.readable?.getD 0.0) 0.0 1.0)) <;>
        simp [Except.mapError, Except.bind, zero]
  · obtain ⟨e, failed, other⟩ := recommend_of_unreadable p modes readable
    simp [failed, other, readable]

theorem kellyDivisor_of_recommend {s : Stake α}
    (h : recommend p modes expectedRating config = .ok s) :
    s.kellyDivisor = meanDivisor modes config := by
  by_cases readable : Readable expectedRating config
  · obtain ⟨riskCap, cap⟩ := readable.1
    rw [recommend_of_readable cap readable.2] at h
    split at h
    · cases h
      rfl
    split at h
    · cases h
    obtain ⟨rounded, -, h⟩ := eq_ok_of_bind h
    cases h
    rfl
  · obtain ⟨e, failed, -⟩ := recommend_of_unreadable p modes readable
    rw [failed] at h
    cases h

end

/-- Where the modes have a positive mean divisor, or the configured one is positive, sizing never
divides by zero and every stake has a positive divisor.  Otherwise the divisor is the configured
one: no stake has a positive divisor, and sizing divides by zero if a ticket grows and that one is
zero. -/
theorem recommend_divides [Std.LawfulOrderLT α] (p : Parlay α) (modes : List (Datum α))
    (expectedRating : Datum α) (config : Config α) :
    (HasDivisor modes config →
      recommend p modes expectedRating config ≠ .error .zeroDivisor ∧
      ∀ s, recommend p modes expectedRating config = .ok s → 0.0 < s.kellyDivisor) ∧
    (¬HasDivisor modes config →
      (recommend p modes expectedRating config = .error .zeroDivisor ↔
        Readable expectedRating config ∧ ¬kellyOf p config ≤ 0.0 ∧
          Scalar.isZero config.kellyDivisor = true) ∧
      ∀ s, recommend p modes expectedRating config = .ok s →
        s.kellyDivisor = config.kellyDivisor ∧ ¬0.0 < s.kellyDivisor) := by
  constructor
  · intro some_divisor
    have positive := (meanDivisor_pos_iff modes config).mpr some_divisor
    constructor
    · rw [Ne, recommend_eq_zeroDivisor_iff, Scalar.isZero_eq_false_of_pos positive]
      simp
    · intro s made
      rw [kellyDivisor_of_recommend made]
      exact positive
  · intro none
    -- What stands in for the mean is the configured divisor, positive or not.
    have configured : meanDivisor modes config = config.kellyDivisor := by
      rw [meanDivisor_eq_ite, if_neg fun mean => none (.inl mean)]
    rw [recommend_eq_zeroDivisor_iff, configured]
    refine ⟨Iff.rfl, fun s made => ?_⟩
    rw [kellyDivisor_of_recommend made, configured]
    exact ⟨rfl, fun positive => none (.inr positive)⟩

end

def evenBet {α : Type} [Scalar α] : Parlay α where
  states := [Parlay.stateOf 2.0 0.6, Parlay.stateOf 0.0 0.4]
  legs := 1

def dividedBy {α : Type} [Scalar α] (divisor : α) : Config α :=
  { Config.standard with kellyDivisor := divisor }

theorem recommend_divides_halfKnown :
    let modes : List (Datum Float) := [.text "常规".toList, .text "未知".toList]
    Std.LawfulOrderLT Float ∧ HasDivisor modes (dividedBy 0.0) ∧
      recommend evenBet modes (.real 0.6) (dividedBy 0.0) ≠ .error .zeroDivisor := by
  intro modes
  have mean : HasMean modes (dividedBy 0.0) := by decide
  exact ⟨inferInstance, .inl mean,
    ((recommend_divides evenBet modes (.real 0.6) (dividedBy 0.0)).1 (.inl mean)).1⟩

theorem lookup_variable (application value : Text) (name other : String) :
    [(application ++ name.toList, value)].lookup (application ++ other.toList) =
      if other = name then some value else none := by
  by_cases same : other = name
  · simp [same]
  · have differ : application ++ other.toList ≠ application ++ name.toList := fun h =>
      same (String.toList_inj.mp (List.append_cancel_left h))
    rw [List.lookup_cons, beq_false_of_ne differ, if_neg same]
    rfl

theorem ofVariables_kellyDivisor {α : Type} [Scalar α] (application : Text) {value : Text}
    {x : α} (spelled : Config.readNumber value = .ok x) :
    Config.ofVariables application [(application ++ "KELLY_DIVISOR".toList, value)] =
      .ok (dividedBy x) := by
  have upper : Text.upper ['M'] = ['M'] := by decide
  unfold Config.ofVariables
  simp only [lookup_variable]
  simp [Config.setting, spelled, bind, Except.bind, pure, Except.pure,
    Config.standard, dividedBy, upper]

theorem readNumber_zero : Config.readNumber (α := ℝ) "0".toList = .ok 0 := by
  have numeral : Numeral.read? "0".toList = some (.decimal false 0 0) := by decide
  rw [Config.readNumber, numeral, Option.bind_some, Reals.ofNumeral?_decimal]
  simp

theorem kellyOf_eq {α : Type} [ExactScalar α] (p : Parlay α) (config : Config α) :
    kellyOf p config = Kelly.optimalFraction
      (Kelly.prospects (p.states.map fun s => Kelly.state s.probability s.net))
      (Datum.real config.maxKellyFraction).value? := by
  have finite (x : α) : Scalar.finite? x = some x := by simp [Scalar.finite?]
  rw [kellyOf, Kelly.prospects, List.filterMap_map]
  simp only [finite]
  rfl

theorem prospects_evenBet : Kelly.prospects ((evenBet (α := ℝ)).states.map fun s =>
    Kelly.state s.probability s.net) = Kelly.prospects Kelly.coin := by
  have won : (2.0 : ℝ) - 1.0 = 1 := by norm_num
  have lost : (0.0 : ℝ) - 1.0 = -1 := by norm_num
  simp only [evenBet, List.map_cons, List.map_nil, State.net, Parlay.stateOf_gross,
    Parlay.stateOf_probability, won, lost]
  rfl

theorem kellyOf_evenBet_pos (divisor : ℝ) : 0 < kellyOf evenBet (dividedBy divisor) := by
  have limit : Kelly.cap (.real (0.95 : ℝ)) = 19 / 20 := by
    norm_num [Kelly.cap, Datum.value?, Kelly.maxFraction_eq]
  have peaks : Kelly.PeaksAt (Kelly.prospects Kelly.coin) (19 / 20) (1 / 5) := by
    apply Kelly.peaksAt_of_unique _ _ (by norm_num) (by norm_num)
    · exact fun x hx other => Kelly.objective_coin_lt hx.1 hx.2 other
    · exact fun s hs => (Kelly.negligible_lt_of_mem hs).le.trans' Odds.negligible_pos.le
  have kept : Kelly.prospects Kelly.coin ≠ [] := by
    rw [Kelly.prospects_coin]
    exact List.cons_ne_nil _ _
  -- The search ends so near to the peak at a fifth that it has left zero.
  have near := abs_lt.mp (Kelly.near_search peaks (by norm_num) (by norm_num))
  rw [kellyOf_eq, prospects_evenBet]
  change 0 < Kelly.optimalFraction _ (Datum.real (0.95 : ℝ)).value?
  rw [Kelly.optimalFraction_of_cap kept (by rw [limit]; norm_num), limit]
  norm_num at near
  linarith [near.1]

/-- With a configured divisor of zero, a growing ticket in an unknown mode divides by zero. -/
theorem recommend_unknownMode :
    Config.ofVariables "QUICKSLIP_".toList [("QUICKSLIP_KELLY_DIVISOR".toList, "0".toList)] =
        .ok (dividedBy (0 : ℝ)) ∧
      meanDivisor [.text "未知".toList] (dividedBy (0 : ℝ)) = 0 ∧
      recommend evenBet [.text "未知".toList] (.real 1) (dividedBy (0 : ℝ)) =
        .error .zeroDivisor := by
  have configured : divisorOf (.text "未知".toList) (dividedBy (0 : ℝ)) = 0 := rfl
  have mean : meanOf [.text "未知".toList] (dividedBy (0 : ℝ)) = 0 := by
    rw [meanOf, List.map_singleton, configured]
    simp
  have divisor : meanDivisor [.text "未知".toList] (dividedBy (0 : ℝ)) = 0 := by
    rw [meanDivisor_eq_ite, mean]
    exact ite_self 0
  refine ⟨ofVariables_kellyDivisor _ readNumber_zero, divisor, ?_⟩
  rw [recommend_eq_zeroDivisor_iff, divisor]
  refine ⟨⟨⟨_, Scalar.round_eq _⟩, rfl⟩, ?_, by simp [Scalar.isZero]⟩
  rw [Scalar.zero_literal]
  exact (kellyOf_evenBet_pos 0).not_ge

end Wager.Stake
