import Wager.Proofs.Scalar.Rational
import Wager.Team.Cache

/-!
# Runs of a cache

A run is any sequence of reads and invalidations, at any times and whatever the provider answers.
Its history tells the last fetch, which is the last time the provider was asked and brought rows
that make a directory, and whether the dictionary was dropped since then.  The cache always holds
what this fetch made, and a read asks the provider just when the history leaves nothing fresh.
-/

namespace Wager.AliasCache

inductive View where
  | dictionary
  | directory
  | snapshot
  deriving DecidableEq, Repr

def View.shows {α : Type} (view : View) (entries : List TeamAlias) (teams : List (Team α)) :
    Option (List TeamAlias) × Option (List (Team α)) :=
  match view with
  | .dictionary => (some entries, none)
  | .directory => (none, some teams)
  | .snapshot => (some entries, some teams)

def View.look {α : Type} (view : View) (c : AliasCache α) :
    Option (List TeamAlias) × Option (List (Team α)) :=
  view.shows c.entries c.directory

/-- One call of a cache.  A read takes place at a time and comes with what the provider answers if
it is asked. -/
inductive Call (ε α : Type) where
  | read (view : View) (now : α) (provider : Except ε (List (ProviderRow α)))
  | invalidate

structure Event (ε α : Type) where
  call : Call ε α
  /-- Whether the provider was asked for its rows. -/
  asked : Bool

/-- The rows that a provider brought, and the time of the read that asked for them. -/
structure Fetch (α : Type) where
  time : α
  rows : List (ProviderRow α)

namespace Event

variable {ε α : Type} [Scalar α]

/-- The fetch that an event was.  A call of the provider succeeds when its rows make a directory. -/
def fetch? [Coercion α] (e : Event ε α) : Option (Fetch α) :=
  match e.call with
  | .read _ now (.ok rows) =>
    if e.asked && (Directory.build rows).isOk then some ⟨now, rows⟩ else none
  | _ => none

def isDrop (e : Event ε α) : Bool :=
  match e.call with
  | .invalidate => true
  | .read .. => false

end Event

section

variable {ε α : Type} [Scalar α] [Coercion α]

def lastFetch? (past : List (Event ε α)) : Option (Fetch α) :=
  (past.filterMap Event.fetch?).getLast?

def dropped (past : List (Event ε α)) : Bool :=
  (past.reverse.takeWhile fun e => e.fetch?.isNone).any Event.isDrop

theorem lastFetch?_concat (past : List (Event ε α)) (e : Event ε α) :
    lastFetch? (past ++ [e]) = e.fetch?.or (lastFetch? past) := by
  unfold lastFetch?
  rw [List.filterMap_append, List.getLast?_append]
  cases h : e.fetch? with
  | none => simp [h]
  | some f => simp [h]

theorem dropped_concat (past : List (Event ε α)) (e : Event ε α) :
    dropped (past ++ [e]) = (e.fetch?.isNone && (e.isDrop || dropped past)) := by
  unfold dropped
  rw [List.reverse_concat, List.takeWhile_cons]
  cases e.fetch? <;> simp

def readEvent (c : AliasCache α) (view : View) (now : α)
    (provider : Except ε (List (ProviderRow α))) : Event ε α :=
  ⟨.read view now provider, (c.read now provider view.look).asked⟩

def step (c : AliasCache α) (call : Call ε α) : AliasCache α × Event ε α :=
  match call with
  | .read view now provider =>
    ((c.read now provider view.look).cache, c.readEvent view now provider)
  | .invalidate => (c.invalidate, ⟨.invalidate, false⟩)

def run (c : AliasCache α) : List (Call ε α) → AliasCache α × List (Event ε α)
  | [] => (c, [])
  | call :: calls =>
    let (next, event) := c.step call
    let (final, events) := next.run calls
    (final, event :: events)

def rebuilt (c : AliasCache α) (now : α) (teams : List (Team α)) : AliasCache α :=
  ⟨c.maxAge, some (AliasDictionary.ofTeams teams), teams, now⟩

theorem refresh_ok (c : AliasCache α) (now : α) (rows : List (ProviderRow α))
    (stale : c.isStale now = true) : c.refresh now (.ok rows : Except ε _) =
      match Directory.build rows with
      | .ok teams => .ok (c.rebuilt now teams)
      | .error failure => .error (.row failure) := by
  rw [refresh, if_pos stale, build]
  cases Directory.build rows <;> rfl

/-- A read finds the cache fresh, or builds it from the provider's rows, or fails and leaves it as
it was. -/
theorem read_cases (c : AliasCache α) (view : View) (now : α)
    (provider : Except ε (List (ProviderRow α))) :
    (c.isStale now = false ∧ c.read now provider view.look = ⟨.ok (view.look c), c, false⟩ ∧
      (c.readEvent view now provider).fetch? = none) ∨
    (c.isStale now = true ∧ ∃ rows teams, Directory.build rows = .ok teams ∧
      c.read now provider view.look =
        ⟨.ok (view.look (c.rebuilt now teams)), c.rebuilt now teams, true⟩ ∧
      (c.readEvent view now provider).fetch? = some ⟨now, rows⟩) ∨
    (c.isStale now = true ∧
      ∃ failure, c.read now provider view.look = ⟨.error failure, c, true⟩ ∧
        (c.readEvent view now provider).fetch? = none) := by
  cases stale : c.isStale now with
  | false =>
    have unread : c.read now provider view.look = ⟨.ok (view.look c), c, false⟩ := by
      simp [read, refresh, stale]
    refine .inl ⟨rfl, unread, ?_⟩
    cases provider <;> simp [readEvent, Event.fetch?, unread]
  | true =>
    right
    cases provider with
    | error failure =>
      have failed : c.read now (.error failure : Except ε _) view.look =
          ⟨.error (.provider failure), c, true⟩ := by simp [read, refresh, stale]
      exact .inr ⟨rfl, .provider failure, failed, rfl⟩
    | ok rows =>
      have refreshed := refresh_ok (ε := ε) c now rows stale
      -- The provider answered, but a row may still be no team.
      cases built : Directory.build rows with
      | error failure =>
        rw [built] at refreshed
        have failed : c.read now (.ok rows : Except ε _) view.look =
            ⟨.error (.row failure), c, true⟩ := by simp [read, refreshed, stale]
        refine .inr ⟨rfl, .row failure, failed, ?_⟩
        simp [readEvent, Event.fetch?, built, Except.isOk, Except.toBool]
      | ok teams =>
        rw [built] at refreshed
        have done : c.read now (.ok rows : Except ε _) view.look =
            ⟨.ok (view.look (c.rebuilt now teams)), c.rebuilt now teams, true⟩ := by
          simp [read, refreshed, stale]
        refine .inl ⟨rfl, rows, teams, built, done, ?_⟩
        simp [readEvent, Event.fetch?, done, built, Except.isOk, Except.toBool]

/-- Whether a cache holds what its history says: the directory of the last fetch with its time, and
the dictionary of this directory unless it was dropped since. -/
structure Follows (maxAge : α) (past : List (Event ε α)) (c : AliasCache α) : Prop where
  maxAge_eq : c.maxAge = maxAge
  unbuilt : lastFetch? past = none → c.dictionary = none
  built : ∀ f, lastFetch? past = some f → c.builtAt = f.time ∧
    Directory.build f.rows = .ok c.directory ∧
    c.dictionary = if dropped past then none else some (AliasDictionary.ofTeams c.directory)

namespace Follows

variable {maxAge : α} {past : List (Event ε α)} {c : AliasCache α}

theorem isStale_iff (h : Follows maxAge past c) (now : α) :
    c.isStale now = true ↔ lastFetch? past = none ∨ dropped past = true ∨
      ∃ f, lastFetch? past = some f ∧ maxAge ≤ now - f.time := by
  unfold isStale
  cases last : lastFetch? past with
  | none => simp [h.unbuilt last]
  | some f =>
    obtain ⟨time, -, dictionary⟩ := h.built f last
    rw [dictionary, h.maxAge_eq, time]
    cases dropped past <;> simp

theorem exists_fetch (h : Follows maxAge past c) {now : α} (fresh : c.isStale now = false) :
    ∃ f, lastFetch? past = some f ∧ Directory.build f.rows = .ok c.directory ∧
      c.entries = AliasDictionary.ofTeams c.directory ∧ ¬maxAge ≤ now - f.time := by
  have calm := mt (h.isStale_iff now).mpr (by simp [fresh])
  simp only [not_or, not_exists, not_and] at calm
  obtain ⟨fetched, kept, young⟩ := calm
  obtain ⟨f, last⟩ := Option.ne_none_iff_exists'.mp fetched
  obtain ⟨-, directory, dictionary⟩ := h.built f last
  refine ⟨f, last, directory, ?_, young f last⟩
  rw [entries, dictionary, if_neg kept, Option.getD_some]

/-- An event that neither fetches nor drops anything changes nothing in the history's account. -/
theorem skip (h : Follows maxAge past c) {e : Event ε α} (nothing : e.fetch? = none)
    (kept : e.isDrop = false) : Follows maxAge (past ++ [e]) c := by
  have last : lastFetch? (past ++ [e]) = lastFetch? past := by simp [lastFetch?_concat, nothing]
  have drops : dropped (past ++ [e]) = dropped past := by simp [dropped_concat, nothing, kept]
  constructor
  · exact h.maxAge_eq
  · rw [last]
    exact h.unbuilt
  · rw [last, drops]
    exact h.built

theorem drop (h : Follows maxAge past c) {e : Event ε α} (call : e.call = .invalidate) :
    Follows maxAge (past ++ [e]) c.invalidate := by
  have nothing : e.fetch? = none := by simp [Event.fetch?, call]
  have last : lastFetch? (past ++ [e]) = lastFetch? past := by simp [lastFetch?_concat, nothing]
  have drops : dropped (past ++ [e]) = true := by
    simp [dropped_concat, nothing, Event.isDrop, call]
  constructor
  · exact h.maxAge_eq
  · intro _
    rfl
  · intro f hf
    obtain ⟨time, directory, -⟩ := h.built f (last ▸ hf)
    exact ⟨time, directory, by rw [drops]; rfl⟩

theorem fetch (h : Follows maxAge past c) {e : Event ε α} {now : α} {rows : List (ProviderRow α)}
    {teams : List (Team α)} (brought : e.fetch? = some ⟨now, rows⟩)
    (built : Directory.build rows = .ok teams) :
    Follows maxAge (past ++ [e]) (c.rebuilt now teams) := by
  have last : lastFetch? (past ++ [e]) = some ⟨now, rows⟩ := by simp [lastFetch?_concat, brought]
  have kept : dropped (past ++ [e]) = false := by simp [dropped_concat, brought]
  constructor
  · exact h.maxAge_eq
  · rw [last]
    rintro ⟨⟩
  · rw [last, kept]
    rintro f ⟨⟩
    exact ⟨rfl, built, rfl⟩

theorem step (h : Follows maxAge past c) (call : Call ε α) :
    Follows maxAge (past ++ [(c.step call).2]) (c.step call).1 := by
  cases call with
  | invalidate => exact h.drop rfl
  | read view now provider =>
    rw [AliasCache.step]
    -- Only a read that builds changes the cache, and only this one is a fetch.
    rcases c.read_cases view now provider with
      ⟨-, unread, nothing⟩ | ⟨-, rows, teams, built, done, brought⟩ | ⟨-, failure, failed, nothing⟩
    · rw [unread]
      exact h.skip nothing rfl
    · rw [done]
      exact h.fetch brought built
    · rw [failed]
      exact h.skip nothing rfl

theorem run (h : Follows maxAge past c) (calls : List (Call ε α)) :
    Follows maxAge (past ++ (c.run calls).2) (c.run calls).1 := by
  induction calls generalizing past c with
  | nil => simpa [AliasCache.run] using h
  | cons call calls ih => simpa [AliasCache.run] using ih (h.step call)

/-- A read asks when the cache is stale, answers unless it asks in vain, and shows what the last
fetch made, its own fetch included. -/
theorem read (h : Follows maxAge past c) (view : View) (now : α)
    (provider : Except ε (List (ProviderRow α))) :
    let r := c.read now provider view.look
    let event := c.readEvent view now provider
    r.asked = c.isStale now ∧
      ((∃ shown, r.answer = .ok shown) ↔ r.asked = false ∨ event.fetch?.isSome = true) ∧
      ∀ shown, r.answer = .ok shown → ∃ f teams, lastFetch? (past ++ [event]) = some f ∧
        Directory.build f.rows = .ok teams ∧
        shown = view.shows (AliasDictionary.ofTeams teams) teams ∧
        (now = f.time ∨ ¬maxAge ≤ now - f.time) := by
  intro r event
  rw [lastFetch?_concat]
  rcases c.read_cases view now provider with
    ⟨fresh, unread, nothing⟩ | ⟨stale, rows, teams, built, done, brought⟩ |
    ⟨stale, failure, failed, nothing⟩
  · rw [show r = _ from unread, show event.fetch? = _ from nothing]
    refine ⟨fresh.symm, by simp, ?_⟩
    rintro shown ⟨⟩
    obtain ⟨f, last, built, entries, young⟩ := h.exists_fetch fresh
    exact ⟨f, c.directory, last, built, by rw [View.look, entries], .inr young⟩
  · rw [show r = _ from done, show event.fetch? = _ from brought]
    refine ⟨stale.symm, by simp, ?_⟩
    rintro shown ⟨⟩
    exact ⟨⟨now, rows⟩, teams, rfl, built, rfl, .inl rfl⟩
  · rw [show r = _ from failed, show event.fetch? = _ from nothing]
    refine ⟨stale.symm, by simp, ?_⟩
    rintro shown ⟨⟩

end Follows

end

variable {ε α : Type} [ExactScalar α]

theorem empty_of_nonneg {maxAge : α} (nonneg : 0 ≤ maxAge) :
    empty maxAge = .ok ⟨maxAge, none, [], 0.0⟩ := by
  simp [empty, not_lt.mpr nonneg]

theorem follows_empty [Coercion α] {maxAge : α} {c : AliasCache α} (made : empty maxAge = .ok c) :
    Follows maxAge ([] : List (Event ε α)) c := by
  unfold empty at made
  split at made
  · cases made
  · cases made
    exact ⟨rfl, fun _ => rfl, fun f hf => by cases hf⟩

/-- In every run of a cache, a read asks the provider just when nothing was fetched yet, or the
dictionary was dropped since the last fetch, or this fetch has reached the greatest age.  It
answers unless it asks in vain, and then it shows the directory of the last fetch and the dictionary
of this directory; this fetch is the read's own or has not reached the greatest age. -/
theorem read_run [Coercion α] {maxAge : α} (nonneg : 0 ≤ maxAge) :
    ∃ c : AliasCache α, empty maxAge = .ok c ∧ ∀ (calls : List (Call ε α)) (view : View) (now : α)
      (provider : Except ε (List (ProviderRow α))),
      let (current, past) := c.run calls
      let r := current.read now provider view.look
      let event := current.readEvent view now provider
      (r.asked = true ↔ lastFetch? past = none ∨ dropped past = true ∨
        ∃ f, lastFetch? past = some f ∧ maxAge ≤ now - f.time) ∧
      ((∃ shown, r.answer = .ok shown) ↔ r.asked = false ∨ event.fetch?.isSome = true) ∧
      ∀ shown, r.answer = .ok shown → ∃ f teams, lastFetch? (past ++ [event]) = some f ∧
        Directory.build f.rows = .ok teams ∧
        shown = view.shows (AliasDictionary.ofTeams teams) teams ∧
        (now = f.time ∨ now - f.time < maxAge) := by
  have made := empty_of_nonneg nonneg
  refine ⟨_, made, fun calls view now provider => ?_⟩
  have follows := (follows_empty (ε := ε) made).run calls
  obtain ⟨asked, answered, shows⟩ := follows.read view now provider
  refine ⟨?_, answered, fun shown hs => ?_⟩
  · rw [asked]
    exact follows.isStale_iff now
  · obtain ⟨f, teams, last, built, same, young⟩ := shows shown hs
    exact ⟨f, teams, last, built, same, young.imp_right not_le.mp⟩

def addedTeam : ProviderRow ℚ :=
  .team ⟨"u1".toList, "青岛海牛".toList, ["海牛".toList], 0, 0.5⟩

/-- A dictionary is fetched and dropped, and fetching it again fails. -/
def interruptedRun : List (Call Unit ℚ) :=
  [.read .dictionary 0 (.ok [addedTeam]), .invalidate, .read .snapshot 10 (.error ())]

theorem read_run_interrupted : (0 : ℚ) ≤ 30 ∧
    ∃ c : AliasCache ℚ, empty 30 = .ok c ∧ dropped (c.run interruptedRun).2 = true ∧
      ((c.run interruptedRun).1.read 20 (.ok [] : Except Unit _) View.directory.look).asked =
        true := by
  have nonneg : (0 : ℚ) ≤ 30 := by norm_num
  obtain ⟨c, made, reads⟩ := read_run (ε := Unit) nonneg
  obtain rfl := Except.ok.inj (made.symm.trans (empty_of_nonneg nonneg))
  have gone : dropped (AliasCache.run ⟨30, none, [], 0.0⟩ interruptedRun).2 = true := rfl
  refine ⟨nonneg, _, made, gone, ?_⟩
  exact (reads interruptedRun .directory 20 (.ok [])).1.mpr (.inr (.inl gone))

end Wager.AliasCache
