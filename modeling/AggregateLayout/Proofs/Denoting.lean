import Mathlib
import AggregateLayout.Proofs.Nesting

namespace AggregateLayout

variable {μ : Type} [Measure μ]

namespace Catalog

inductive Denoted (μ : Type) [Measure μ] where
  | aggregate (a : Aggregate μ)
  | type (d : TypeDescriptor μ)

def denotes? (c : Catalog μ) (name : String) : Option (Denoted μ) :=
  match c.nested? name with
  | some a => some (.aggregate a)
  | none => (c.describe name).toOption.map .type

variable {c : Catalog μ} {name : String}

theorem describe_eq_error {e : LayoutError μ} (h : c.describe name = .error e) :
    e = { cause := .unknownType name } := by
  unfold describe at h
  dsimp only at h
  split at h
  · cases h
  · split at h
    · cases h
    · exact (Except.error.inj h).symm

theorem denotes?_eq_aggregate {a : Aggregate μ} :
    c.denotes? name = some (.aggregate a) ↔ c.nested? name = some a := by
  unfold denotes?
  split <;> simp [*]

theorem denotes?_eq_type {d : TypeDescriptor μ} :
    c.denotes? name = some (.type d) ↔ c.nested? name = none ∧ c.describe name = .ok d := by
  unfold denotes?
  split
  · next h => simp [h]
  · next h => cases c.describe name <;> simp [h, Except.toOption]

theorem denotes?_eq (c : Catalog μ) (name : String) :
    c.denotes? name =
      if TypeName.isPointer (c.resolve name) then
        some (.type (.pointer (String.ofList (c.resolve name).toList.dropLast)
          c.profile.pointerSize))
      else
        (c.aggregates.find? (c.resolve name)).map .aggregate <|>
          (c.types.find? (c.resolve name)).map .type := by
  unfold denotes? nested? isPointer aggregate? describe
  dsimp only
  cases TypeName.isPointer (c.resolve name) with
  | true => simp [Except.toOption]
  | false =>
    cases c.aggregates.find? (c.resolve name) with
    | some a => simp
    | none => cases c.types.find? (c.resolve name) <;> simp [Except.toOption]

end Catalog

namespace Target

open Catalog (Denoted)

variable {t : Target μ} {m : Member μ} {name : String}

def typeOfDenoted (nested : Aggregate μ → Layouting μ (TypeDescriptor μ)) (name : String) :
    Option (Denoted μ) → Layouting μ (TypeDescriptor μ)
  | some (.aggregate a) => nested a
  | some (.type d) => pure d
  | none => throw (.invalid { cause := .unknownType name })

theorem typeWith_named (nested : Aggregate μ → Layouting μ (TypeDescriptor μ))
    (htype : m.type = .named name) :
    t.typeWith nested m =
      typeOfDenoted nested name (t.catalog.denotes? name) >>= fun d => liftM (withDims m d) := by
  unfold typeWith Catalog.denotes?
  rw [htype]
  dsimp only
  cases t.catalog.nested? name with
  | some a => rfl
  | none =>
    cases hdescribe : t.catalog.describe name with
    | ok d => rfl
    | error e =>
      rw [Catalog.describe_eq_error hdescribe]
      rfl

end Target

end AggregateLayout
