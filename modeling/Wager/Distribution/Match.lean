import Wager.Entry.Coverage
import Wager.Distribution.State

/-!
# The distribution of one match

Entries of one match overlap: a win and a double chance both pay when the home side wins.  A match
is therefore a distribution over disjoint atoms, in which every outcome counts once.  When every
entry covers results, the atoms are the results; otherwise each entry is an atom of its own.  An
atom's probability is its share of the probability that some entry hits, and its payout is the
weighted odds of the entries that cover it.  One more state stands for the case that none hits.
-/

namespace Wager

/-- What the probability of a match is spread over: a result, or one entry by its position. -/
inductive Atom where
  | outcome (o : Outcome)
  | entry (index : Nat)
  deriving DecidableEq, Repr

def Atom.key : Atom → Text
  | .outcome o => o.key
  | .entry index => "entry_".toList ++ Text.ofNat index

inductive MatchState where
  | atom (a : Atom)
  | miss
  deriving DecidableEq, Repr

def MatchState.key : MatchState → Text
  | .atom a => a.key
  | .miss => missLabel

structure PricedEntry (α : Type) where
  semantic : Semantic α
  odds : α
  deriving DecidableEq, Repr

/-- One entry of a match with the atoms it pays on. -/
structure CoveringEntry (α : Type) where
  index : Nat
  name : Text
  odds : α
  atoms : List Atom
  deriving DecidableEq, Repr

structure EntryShare (α : Type) where
  index : Nat
  name : Text
  odds : α
  splitWeight : α
  atoms : List Atom
  hitProbability : α
  deriving DecidableEq, Repr

structure MatchDistribution (α : Type) where
  states : List (State MatchState α)
  entries : List (EntryShare α)
  unionProbability : α
  fallbackOdds : α
  deriving DecidableEq, Repr

def entryName (index : Nat) : Text := "entry-".toList ++ Text.ofNat (index + 1)

section

variable {α : Type} [Scalar α]

namespace PricedEntry

/-- The usable entries.  One without a name gets a name by its position. -/
def list (entries : List (Datum α)) (fallback : Datum α) :
    Except Datum.Overflow (List (PricedEntry α)) := do
  let read ← entries.mapM (Entry.ofDatum · fallback)
  let named := read.zipIdx.map fun (r, i) =>
    if r.name.isEmpty then { r with semantic := Semantic.ofText (entryName i) } else r
  return named.filterMap fun r =>
    match r.odds with
    | some odds => if Odds.isUsable odds then some ⟨r.semantic, odds⟩ else none
    | none => none

end PricedEntry

namespace CoveringEntry

def implied (d : CoveringEntry α) : α := Odds.implied d.odds

/-- What some entries cover; their odds need not be usable.  Only when every entry covers results
are the atoms results. -/
def list (entries : List (EntryLabels × α)) : List (CoveringEntry α) :=
  let covered := entries.map fun (labels, _) => Coverage.ofLabels labels
  let byResult := covered.all (!·.isEmpty)
  (entries.zip covered).zipIdx.map fun (((labels, odds), outcomes), index) =>
    { index
      name := labels.name
      odds
      atoms := if byResult then outcomes.map Atom.outcome else [.entry index] }

inductive ZeroPrice where
  | divisionByZero
  deriving DecidableEq, Repr

def ZeroPrice.message : ZeroPrice → String
  | .divisionByZero => "float division by zero"

def list? (entries : List (EntryLabels × α)) : Except ZeroPrice (List (CoveringEntry α)) :=
  if entries.any fun (_, odds) => Scalar.isZero odds then .error .divisionByZero
  else .ok (list entries)

end CoveringEntry

namespace MatchDistribution

def defaultFallback : α := 2.5

def fallbackPrice (fallback : Datum α) : Except Datum.Overflow α := do
  return Scalar.max Odds.least (← fallback.numberOr defaultFallback)

def boundUnion (p : α) : α := Scalar.clamp p 0.02 0.95

def boundSupplied (p : α) : α := Scalar.clamp p 0.001 0.999

/-- The probability that at least one of some independent bets at these odds hits. -/
def unionOfOdds (odds : List α) : α :=
  boundUnion (1.0 - odds.foldl (fun miss o => miss * (1.0 - Scalar.clamp (1.0 / o) 0.001 0.97)) 1.0)

def estimateUnion (entries : List (Datum α)) (fallback : Datum α) : Except Datum.Overflow α := do
  let standIn ← fallbackPrice fallback
  let priced ← PricedEntry.list entries fallback
  return if priced.isEmpty then boundUnion (1.0 / standIn) else unionOfOdds (priced.map (·.odds))

def anchorOdds (entries : List (Datum α)) (fallback : Datum α) : Except Datum.Overflow α := do
  return Scalar.max Odds.least (1.0 / Scalar.max (← estimateUnion entries fallback) 0.001)

def equalWeights (count : Nat) : List α := List.replicate count (1.0 / Scalar.ofNat count)

/-- The parts of the stake.  Weights count only when there is one per entry and they have mass. -/
def splitWeights (count : Nat) : Option (List (Datum α)) → Except Datum.Overflow (List α)
  | none => .ok (equalWeights count)
  | some weights => do
    if weights.length != count then return equalWeights count
    let safe ← weights.mapM fun w => return Scalar.max 0.0 (← w.numberOr 0.0)
    let total := Scalar.sum safe
    return if total ≤ (Odds.negligible : α) then equalWeights count else safe.map (· / total)

/-- Adds mass to an atom, which comes last when it is new. -/
def addShare (shares : List (Atom × α)) (atom : Atom) (share : α) : List (Atom × α) :=
  if shares.any fun (a, _) => a == atom then
    shares.map fun (a, w) => if a == atom then (a, w + share) else (a, w)
  else shares ++ [(atom, 0.0 + share)]

/-- The mass of every atom: each entry's implied probability in equal parts over its atoms. -/
def atomShares (covering : List (CoveringEntry α)) : List (Atom × α) :=
  covering.foldl (fun shares d =>
    let share := d.implied / Scalar.ofNat (Nat.max 1 d.atoms.length)
    d.atoms.foldl (fun shares a => addShare shares a share) shares) []

def atomWeights (covering : List (CoveringEntry α)) : List (Atom × α) :=
  let shares := atomShares covering
  let total : α := Scalar.sum (shares.map fun (_, w) => w)
  if total ≤ Odds.negligible then shares.map fun (a, _) => (a, 1.0 / Scalar.ofNat shares.length)
  else shares.map fun (a, w) => (a, w / total)

/-- The payout on an atom: the weighted odds of the entries that cover it. -/
def grossOn (covering : List (CoveringEntry α)) (weights : List α) (atom : Atom) : α :=
  Scalar.sum ((covering.zip weights).filterMap fun (d, w) =>
    if d.atoms.contains atom then some (w * d.odds) else none)

def labelOf (covering : List (CoveringEntry α)) : Atom → Text
  | .outcome o => o.label
  | .entry index => ((covering.find? (·.index == index)).map (·.name)).getD []

def missState (probability : α) : State MatchState α :=
  ⟨.miss, missLabel, probability, 0.0, true⟩

/-- The states before their probabilities are scaled to add up to one; states without mass are left
out. -/
def rawStates (covering : List (CoveringEntry α)) (weights : List α) (union : α) :
    List (State MatchState α) :=
  let hits := (atomWeights covering).filterMap fun (atom, weight) =>
    let probability := Scalar.clamp (union * weight) 0.0 1.0
    if probability ≤ Odds.negligible then none
    else some
      { id := .atom atom
        label := labelOf covering atom
        probability
        gross := grossOn covering weights atom
        isMiss := false }
  let miss := Scalar.clamp (1.0 - union) 0.0 1.0
  if Odds.negligible < miss then hits ++ [missState miss] else hits

/-- Scales probabilities to add up to one; without mass nothing hits. -/
def normalizeStates (states : List (State MatchState α)) : List (State MatchState α) :=
  let total := Statistics.mass states
  if Odds.negligible < total then
    states.map fun s => { s with probability := s.probability / total }
  else [missState 1.0]

def shareOf (states : List (State MatchState α)) (d : CoveringEntry α) (weight : α) :
    EntryShare α :=
  { index := d.index
    name := d.name
    odds := d.odds
    splitWeight := weight
    atoms := d.atoms
    hitProbability := Scalar.sum (states.filterMap fun s =>
      match s.id with
      | .atom a => if d.atoms.contains a then some s.probability else none
      | .miss => none) }

def ofPriced (entries : List (PricedEntry α)) (weights : List α) (union fallback : α) :
    MatchDistribution α :=
  let covering := CoveringEntry.list (entries.map fun e =>
    (EntryLabels.ofEntry ⟨e.semantic, some e.odds⟩, e.odds))
  let states := normalizeStates (rawStates covering weights union)
  { states
    entries := (covering.zip weights).map fun (d, w) => shareOf states d w
    unionProbability := union
    fallbackOdds := fallback }

def standIn (fallback : α) : PricedEntry α := ⟨Semantic.ofText "default".toList, fallback⟩

/-- The distribution of a match.  The probability that some entry hits is estimated unless it is
given. -/
def build (entries : List (Datum α)) (unionProbability fallbackOdds : Datum α)
    (splitting : Option (List (Datum α))) : Except Datum.Overflow (MatchDistribution α) := do
  let fallback ← fallbackPrice fallbackOdds
  let usable ← PricedEntry.list entries fallbackOdds
  let priced := if usable.isEmpty then [standIn fallback] else usable
  let weights ← splitWeights priced.length splitting
  let union :=
    match ← unionProbability.number? with
    | some p => boundSupplied p
    | none => unionOfOdds (priced.map (·.odds))
  return ofPriced priced weights union fallback

def statistics (p : MatchDistribution α) : Statistics α := Statistics.ofStates p.states

/-- The single price that stands for all entries of a match. -/
def equivalentOdds (entries : List (Datum α)) (fallbackOdds : Datum α) :
    Except Datum.Overflow α := do
  let standIn ← fallbackPrice fallbackOdds
  let union ← estimateUnion entries fallbackOdds
  let whole ← build entries (.real union) fallbackOdds none
  let conditional := whole.statistics.conditionalOdds
  return Scalar.max Odds.least ((Scalar.finite? conditional).getD standIn)

end MatchDistribution

end

end Wager
