import Wager.Proofs.Scalar.Exact
import Wager.Entry.Basic

/-!
# Exact readings

An exact scalar has room for every integer, so reading a loosely typed value never fails.
-/

namespace Wager

variable {α : Type} [ExactScalar α]

theorem mapM_ok {β γ ε : Type} (f : β → γ) (xs : List β) :
    xs.mapM (fun x => (Except.ok (f x) : Except ε γ)) = .ok (xs.map f) :=
  List.mapM_pure

namespace Datum

def value? : Datum α → Option α
  | .int n => some n
  | .real x => some x
  | .text t => Scalar.ofText? t
  | _ => none

@[simp] theorem number?_eq (d : Datum α) : d.number? = .ok d.value? := by
  cases d <;> simp [number?, value?, Scalar.finite?]

@[simp] theorem numberOr_eq (d : Datum α) (fallback : α) :
    d.numberOr fallback = .ok (d.value?.getD fallback) := by
  rw [numberOr, number?_eq]
  rfl

def bet {α : Type} (name : String) (odds : Int) : Datum α :=
  .object [("name".toList, .text name.toList), ("odds".toList, .int odds)]

end Datum

@[simp] theorem Entry.ofDatum_eq (entry fallback : Datum α) : Entry.ofDatum entry fallback =
    .ok ⟨Semantic.ofText (Entry.fields entry).1,
      (Entry.fields entry).2.value? <|> fallback.value?⟩ := by
  simp only [Entry.ofDatum, Datum.number?_eq]
  rfl

end Wager
