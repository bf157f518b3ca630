import Wager.Team.Dictionary

/-!
# Cached dictionaries

A dictionary and its directory are built from a provider's rows and kept until they are too old or
are dropped on purpose.  A read that cannot build leaves the cache as it was.
-/

namespace Wager

/-- A cached dictionary with the directory it was built from. -/
structure AliasCache (α : Type) where
  /-- The age from which the dictionary is built anew. -/
  maxAge : α
  /-- The dictionary, absent before the first build and after it was dropped. -/
  dictionary : Option (List TeamAlias)
  directory : List (Team α)
  builtAt : α
  deriving DecidableEq, Repr

namespace AliasCache

variable {α : Type} [Scalar α]

inductive AgeError (α : Type) where
  | negative (maxAge : α)
  deriving DecidableEq, Repr

def AgeError.message : AgeError α → String
  | .negative maxAge => "ttl_seconds must be >= 0, got " ++ String.ofList (Scalar.text maxAge)

def empty (maxAge : α) : Except (AgeError α) (AliasCache α) :=
  if maxAge < 0.0 then .error (.negative maxAge) else .ok ⟨maxAge, none, [], 0.0⟩

def isStale (c : AliasCache α) (now : α) : Bool :=
  c.dictionary.isNone || c.maxAge ≤ now - c.builtAt

/-- Why a build failed: the provider did, or one of its rows. -/
inductive BuildError (ε : Type) where
  | provider (failure : ε)
  | row (failure : RowError)
  deriving DecidableEq, Repr

def build [Coercion α] (c : AliasCache α) (now : α) (rows : List (ProviderRow α)) :
    Except RowError (AliasCache α) := do
  let directory ← Directory.build rows
  return { c with
    dictionary := some (AliasDictionary.ofTeams directory)
    directory
    builtAt := now }

/-- The cache as a read at this time finds it; `provider` answers the rows if they are needed. -/
def refresh [Coercion α] {ε : Type} (c : AliasCache α) (now : α)
    (provider : Except ε (List (ProviderRow α))) : Except (BuildError ε) (AliasCache α) :=
  if c.isStale now then
    match provider with
    | .ok rows => (c.build now rows).mapError .row
    | .error failure => .error (.provider failure)
  else .ok c

def entries (c : AliasCache α) : List TeamAlias := c.dictionary.getD []

structure Reading (ε α β : Type) where
  /-- What the read answers, or why no dictionary could be built. -/
  answer : Except (BuildError ε) β
  /-- The cache afterwards. -/
  cache : AliasCache α
  /-- Whether the provider was asked for its rows. -/
  asked : Bool

/-- A read that answers with what `look` finds in the cache. -/
def read [Coercion α] {ε β : Type} (c : AliasCache α) (now : α)
    (provider : Except ε (List (ProviderRow α))) (look : AliasCache α → β) : Reading ε α β :=
  match c.refresh now provider with
  | .ok fresh => ⟨.ok (look fresh), fresh, c.isStale now⟩
  | .error e => ⟨.error e, c, c.isStale now⟩

def invalidate (c : AliasCache α) : AliasCache α := { c with dictionary := none }

end AliasCache

end Wager
