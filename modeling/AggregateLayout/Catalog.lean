import AggregateLayout.LayoutError
import AggregateLayout.Profile
import AggregateLayout.Table
import AggregateLayout.TypeName

namespace AggregateLayout

structure Catalog (μ : Type) [Measure μ] where
  profile : MachineProfile μ
  types : Table (TypeDescriptor μ) := []
  aliases : Table String := []
  aggregates : Table (Aggregate μ) := []

namespace Catalog

variable {μ : Type} [Measure μ]

def register (c : Catalog μ) (d : TypeDescriptor μ) : Catalog μ :=
  { c with types := c.types.insert (TypeName.normalize d.name) d }

def registerAlias (c : Catalog μ) (name target : String) : Catalog μ :=
  { c with aliases := c.aliases.insert (TypeName.normalize name) (TypeName.normalize target) }

def define? (c : Catalog μ) (a : Aggregate μ) : Option (Catalog μ) :=
  if a.name.isEmpty then none
  else some { c with aggregates := c.aggregates.insert (TypeName.normalize a.name) a }

def unnamedMessage : String := "Only named aggregates can be defined in the catalog"

/-- Follows aliases from a name, at most as many as there are, and stops on a name that was met
before. -/
def follow (aliases : Table String) : Nat → List String → String → String
  | 0, _, name => name
  | steps + 1, seen, name =>
    if seen.contains name then name
    else
      match aliases.find? name with
      | none => name
      | some target => follow aliases steps (name :: seen) target

def resolve (c : Catalog μ) (name : String) : String :=
  follow c.aliases c.aliases.length [] (TypeName.normalize name)

def isPointer (c : Catalog μ) (name : String) : Bool := TypeName.isPointer (c.resolve name)

def aggregate? (c : Catalog μ) (name : String) : Option (Aggregate μ) :=
  c.aggregates.find? (c.resolve name)

def contains (c : Catalog μ) (name : String) : Bool :=
  let resolved := c.resolve name
  c.types.contains resolved || c.aggregates.contains resolved || TypeName.isPointer resolved

def describe (c : Catalog μ) (name : String) : Except (LayoutError μ) (TypeDescriptor μ) :=
  let resolved := c.resolve name
  if TypeName.isPointer resolved then
    .ok (.pointer (String.ofList resolved.toList.dropLast) c.profile.pointerSize)
  else
    match c.types.find? resolved with
    | some d => .ok d
    | none => .error { cause := .unknownType name }

end Catalog

end AggregateLayout
