import Wager.Check.Lax
import Wager.Scalar.Double
import Wager.Team.Similarity

/-!
# What the program runs with

The lenient coercions of fields, on doubles, the search by shared characters, and a split of the
stake as it stands in a request.
-/

namespace Wager

instance : Coercion Float := .lax

instance : SimilarNames := ⟨Suggestion.bySimilarity⟩

def Datum.items? {α : Type} : Datum α → Option (List (Datum α))
  | .list items => some items
  | _ => none

instance {α : Type} : Coe (Datum α) (Option (List (Datum α))) := ⟨Datum.items?⟩

end Wager
