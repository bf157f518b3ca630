import Wager.Proofs.Team.Cache

/-!
# Failed reads

A read fails when the provider does, or when one of its rows is no team.  Taken in steps, a read
assigns the parts of its cache one after another and a failure keeps what was assigned before it;
but all that can fail comes before the first assignment.  So a failed read leaves its cache as it
was, and a run goes without its failed reads as it goes with them.
-/

namespace Wager.AliasCache

variable {ε α : Type} [Scalar α] [Coercion α]

/-- Steps on a cache, any of which may fail.  What was assigned before a failure stays assigned. -/
abbrev Steps (ε α : Type) := ExceptT (BuildError ε) (StateM (AliasCache α))

def refreshSteps (now : α) (provider : Except ε (List (ProviderRow α))) : Steps ε α Unit := do
  let c ← get
  if c.isStale now then
    let rows ← ExceptT.mk (pure (provider.mapError .provider))
    let teams ← ExceptT.mk (pure ((Directory.build rows).mapError .row))
    modify fun c => { c with dictionary := some (AliasDictionary.ofTeams teams) }
    modify fun c => { c with directory := teams }
    modify fun c => { c with builtAt := now }

def readSteps {β : Type} (now : α) (provider : Except ε (List (ProviderRow α)))
    (look : AliasCache α → β) : Steps ε α β := do
  refreshSteps now provider
  return look (← get)

theorem run_refreshSteps (c : AliasCache α) (now : α)
    (provider : Except ε (List (ProviderRow α))) :
    (refreshSteps now provider).run.run c =
      match c.refresh now provider with
      | .ok fresh => (.ok (), fresh)
      | .error failure => (.error failure, c) := by
  change (ite (c.isStale now = true) _ _ : Steps ε α Unit).run.run c = _
  cases stale : c.isStale now with
  | false =>
    have kept : c.refresh now provider = .ok c := by simp [refresh, stale]
    rw [kept]
    rfl
  | true =>
    cases provider with
    | error failure =>
      have failed : c.refresh now (.error failure) = .error (.provider failure) := by
        simp [refresh, stale]
      rw [failed]
      rfl
    | ok rows =>
      rw [refresh_ok c now rows stale, if_pos rfl]
      change (ExceptT.mk (pure ((Directory.build rows).mapError .row)) >>= _ :
        Steps ε α Unit).run.run c = _
      cases Directory.build rows with
      | error failure => rfl
      | ok teams => rfl

theorem read_eq_steps {β : Type} (c : AliasCache α) (now : α)
    (provider : Except ε (List (ProviderRow α))) (look : AliasCache α → β) :
    ((c.read now provider look).answer, (c.read now provider look).cache) =
      (readSteps now provider look).run.run c := by
  rw [readSteps, ExceptT.run_bind, StateT.run_bind, run_refreshSteps, read]
  cases c.refresh now provider with
  | ok fresh => rfl
  | error failure => rfl

theorem cache_of_failed {β : Type} {c : AliasCache α} {now : α}
    {provider : Except ε (List (ProviderRow α))} {look : AliasCache α → β}
    {failure : BuildError ε} (failed : (c.read now provider look).answer = .error failure) :
    (c.read now provider look).cache = c := by
  have steps := c.read_eq_steps now provider look
  rw [readSteps, ExceptT.run_bind, StateT.run_bind, run_refreshSteps] at steps
  cases refreshed : c.refresh now provider with
  | ok fresh =>
    rw [refreshed] at steps
    cases failed.symm.trans (congrArg Prod.fst steps)
  | error _ =>
    rw [refreshed] at steps
    exact congrArg Prod.snd steps

/-- One call of a run, with the cache it found and the cache it left.  A call that is no read has no
answer. -/
structure Passage (ε α : Type) where
  before : AliasCache α
  event : Event ε α
  answer? : Option (Except (BuildError ε) (Option (List TeamAlias) × Option (List (Team α))))
  after : AliasCache α

namespace Passage

def call (p : Passage ε α) : Call ε α := p.event.call

def failed (p : Passage ε α) : Bool :=
  match p.answer? with
  | some (.error _) => true
  | _ => false

end Passage

def answer? (c : AliasCache α) (call : Call ε α) :
    Option (Except (BuildError ε) (Option (List TeamAlias) × Option (List (Team α)))) :=
  match call with
  | .read view now provider => some (c.read now provider view.look).answer
  | .invalidate => none

def passage (c : AliasCache α) (call : Call ε α) : Passage ε α :=
  ⟨c, (c.step call).2, c.answer? call, (c.step call).1⟩

def trace (c : AliasCache α) : List (Call ε α) → List (Passage ε α)
  | [] => []
  | call :: calls => c.passage call :: (c.step call).1.trace calls

@[simp] theorem call_passage (c : AliasCache α) (call : Call ε α) :
    (c.passage call).call = call := by
  cases call with
  | read view now provider => rfl
  | invalidate => rfl

theorem map_event_trace (c : AliasCache α) (calls : List (Call ε α)) :
    (c.trace calls).map Passage.event = (c.run calls).2 := by
  induction calls generalizing c with
  | nil => rfl
  | cons call calls ih =>
    rw [trace, List.map_cons, ih]
    rfl

theorem step_of_failed {c : AliasCache α} {call : Call ε α}
    (failed : (c.passage call).failed = true) : (c.step call).1 = c := by
  cases call with
  | invalidate => cases failed
  | read view now provider =>
    cases answer : (c.read now provider view.look).answer with
    | ok shown => simp [Passage.failed, passage, answer?, answer] at failed
    | error failure => exact cache_of_failed answer

theorem after_of_failed {c : AliasCache α} {calls : List (Call ε α)} {p : Passage ε α}
    (hp : p ∈ c.trace calls) (failed : p.failed = true) : p.after = p.before := by
  induction calls generalizing c with
  | nil => cases hp
  | cons call calls ih =>
    rcases List.mem_cons.mp hp with rfl | later
    · exact step_of_failed failed
    · exact ih later

def successes (c : AliasCache α) (calls : List (Call ε α)) : List (Passage ε α) :=
  (c.trace calls).filter fun p => !p.failed

theorem successes_cons (c : AliasCache α) (call : Call ε α) (calls : List (Call ε α)) :
    c.successes (call :: calls) =
      if (c.passage call).failed then c.successes calls
      else c.passage call :: (c.step call).1.successes calls := by
  rw [successes, trace, List.filter_cons]
  cases failed : (c.passage call).failed with
  | false => rfl
  | true =>
    rw [step_of_failed failed]
    rfl

theorem trace_successes (c : AliasCache α) (calls : List (Call ε α)) :
    c.trace ((c.successes calls).map Passage.call) = c.successes calls := by
  induction calls generalizing c with
  | nil => rfl
  | cons call calls ih =>
    rw [successes_cons]
    split
    -- A failed call left the cache it found, so the rest of the run is one from the same cache.
    next => exact ih c
    next => rw [List.map_cons, call_passage, trace, ih]

theorem run_successes (c : AliasCache α) (calls : List (Call ε α)) :
    (c.run ((c.successes calls).map Passage.call)).1 = (c.run calls).1 := by
  induction calls generalizing c with
  | nil => rfl
  | cons call calls ih =>
    rw [successes_cons]
    split
    next failed =>
      rw [ih c]
      change _ = ((c.step call).1.run calls).1
      rw [step_of_failed failed]
    next =>
      rw [List.map_cons, call_passage]
      exact ih (c.step call).1

/-- A failed read leaves the dictionary, the directory and the time of the build as they were.  A
run without its failed reads makes every other call as it was made with them: it finds and leaves
the same cache, answers the same and asks the provider in the same cases; and so does whatever is
called next. -/
theorem failures_leave_no_trace (c : AliasCache α) (calls : List (Call ε α)) :
    let kept := (c.trace calls).filter fun p => !p.failed
    (∀ p ∈ c.trace calls, p.failed = true → p.after.dictionary = p.before.dictionary ∧
      p.after.directory = p.before.directory ∧ p.after.builtAt = p.before.builtAt) ∧
    c.trace (kept.map Passage.call) = kept ∧
    c.run (kept.map Passage.call) = ((c.run calls).1, kept.map Passage.event) := by
  intro kept
  have same : c.trace (kept.map Passage.call) = kept := c.trace_successes calls
  refine ⟨?_, same, Prod.ext (c.run_successes calls) ?_⟩
  · intro p hp failed
    rw [after_of_failed hp failed]
    exact ⟨rfl, rfl, rfl⟩
  · rw [← map_event_trace, same]

/-- The last read of the interrupted run is the one that fails. -/
example : (trace (⟨30, none, [], 0⟩ : AliasCache ℚ) interruptedRun).map Passage.failed =
    [false, false, true] := rfl

end Wager.AliasCache
