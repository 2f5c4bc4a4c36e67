import AggregateLayout.Catalog.Primitive
import AggregateLayout.Layout.Placer

/-!
Layouts of aggregates for a target. A nested aggregate takes part with the size and the alignment
of its own layout, so that alignments propagate outward. Names are resolved by the catalog of the
target. An aggregate that is met again in one computation keeps the descriptor it was given first.
-/

namespace AggregateLayout

variable {μ : Type} [Measure μ]

open AggregateLayout.Measure (whole)

/-- What layouts are computed for: a catalog, which is bound to its profile, and how deep
aggregates may nest. -/
structure Target (μ : Type) [Measure μ] where
  catalog : Catalog μ
  maxDepth : μ := whole 64

structure ProfileMismatch where
  built : String
  asked : String

def ProfileMismatch.message (m : ProfileMismatch) : String :=
  s!"Catalog was built for profile '{m.built}', not '{m.asked}'"

def Catalog.forProfile (c : Catalog μ) (p : MachineProfile μ) :
    Except ProfileMismatch (Catalog μ) :=
  if c.profile.sameTarget p then .ok c
  else .error { built := c.profile.name, asked := p.name }

abbrev Memo (μ : Type) [Measure μ] := List (Aggregate μ × TypeDescriptor μ)

def Memo.find? (memo : Memo μ) (a : Aggregate μ) : Option (TypeDescriptor μ) :=
  (List.find? (fun entry => entry.1.sameAs a) memo).map (·.2)

structure PartialStruct (μ : Type) [Measure μ] where
  placer : Placer μ := {}
  alignment : PowerOfTwo := .one
  placements : List (Placement μ) := []

def PartialStruct.add (p : MachineProfile μ) (packed : Bool) (s : PartialStruct μ) (m : Member μ)
    (d : TypeDescriptor μ) : Except (LayoutFailure μ) (PartialStruct μ) := do
  let (placement, placer) ← s.placer.place p packed m d
  placer.computed.mapError .number
  placement.written.mapError .number
  return { placer, alignment := s.alignment.max d.alignment,
           placements := placement :: s.placements }

def PartialStruct.finish (p : MachineProfile μ) (a : Aggregate μ) (s : PartialStruct μ) :
    Layout μ :=
  let alignment := if a.packed then .one else s.alignment
  let placer := (s.placer.close p).align alignment
  { name := a.name, kind := a.kind, placements := s.placements.reverse,
    padding := placer.padding, totalSize := placer.cursor, totalAlignment := alignment,
    packed := a.packed }

def overlay (p : MachineProfile μ) (m : Member μ) (d : TypeDescriptor μ) :
    Except (LayoutFailure μ) (Placement μ) := do
  let placement : Placement μ :=
    { name := m.name, typeName := m.typeName, offset := whole 0, size := d.size,
      alignment := d.alignment }
  match m.bits with
  | none => return placement
  | some width =>
    checkBitfield m width d
    let offset := bitPosition p.bitfieldDirection (whole 0) width d.bitSize
    return { placement with bits := some { offset, width } }

def finishUnion (a : Aggregate μ) (placements : List (Placement μ)) : Layout μ :=
  let widest := (placements.map (·.alignment)).foldl PowerOfTwo.max .one
  let largest := (placements.map (·.size.val)).foldl Measure.larger (whole 0)
  let alignment := if a.packed then .one else widest
  let placer := ({ cursor := largest } : Placer μ).align alignment
  { name := a.name, kind := a.kind, placements, padding := placer.padding,
    totalSize := placer.cursor, totalAlignment := alignment, packed := a.packed }

def checkNames (a : Aggregate μ) (seen : List String) :
    List (Member μ) → Except (LayoutFailure μ) Unit
  | [] => .ok ()
  | m :: rest =>
    if m.name.isEmpty then
      .error (.invalid { cause := .invalidMember .unnamed, aggregate := some a.name })
    else if seen.contains m.name then
      .error (.invalid { cause := .invalidMember (.duplicate m.name), aggregate := some a.name,
                         member := some m.name })
    else checkNames a (m.name :: seen) rest

def checkCycle (path : List String) (a : Aggregate μ) : Except (LayoutFailure μ) Unit :=
  if !a.name.isEmpty && path.contains a.name then
    .error (.invalid { cause := .cycle (path ++ [a.name]), aggregate := path.getLast? })
  else .ok ()

/-- A length that no array has is the fault of the member, except that one which meets a fraction
and is too large for that is not. -/
def Member.lengthFailure (m : Member μ) : TypeFault μ → LayoutFailure μ
  | .number .tooLarge => .number .tooLarge
  | fault => .invalid { cause := .invalidMember (.badLength fault), member := some m.name }

def withDims (m : Member μ) (d : TypeDescriptor μ) :
    Except (LayoutFailure μ) (TypeDescriptor μ) :=
  m.dims.reverse.foldlM (fun element count =>
    (TypeDescriptor.arrayOf element count).mapError m.lengthFailure) d

def Catalog.nested? (c : Catalog μ) (name : String) : Option (Aggregate μ) :=
  if c.isPointer name then none else c.aggregate? name

def Layout.descriptor (l : Layout μ) : TypeDescriptor μ :=
  .aggregate (orAnonymous l.name) (.of l.totalSize) l.totalAlignment

def Layout.computed (l : Layout μ) : Except (LayoutFailure μ) (Layout μ) :=
  ((Measure.computed l.totalSize).map fun _ => l).mapError .number

abbrev Layouting (μ : Type) [Measure μ] := StateT (Memo μ) (Except (LayoutFailure μ))

namespace Target

def ofProfile (p : MachineProfile μ) : Target μ where
  catalog := .ofProfile p

def profile (t : Target μ) : MachineProfile μ := t.catalog.profile

def typeWith (t : Target μ) (nested : Aggregate μ → Layouting μ (TypeDescriptor μ))
    (m : Member μ) : Layouting μ (TypeDescriptor μ) := do
  let d ← match m.type with
    | .descriptor d => pure d
    | .inline a => nested a
    | .named name =>
      match t.catalog.nested? name with
      | some a => nested a
      | none => liftM ((t.catalog.describe name).mapError LayoutFailure.invalid)
  withDims m d

def placing {α : Type} (a : Aggregate μ) (m : Member μ) (x : Layouting μ α) : Layouting μ α :=
  fun memo => (x memo).mapError (·.located a.name m.name)

def layoutWith (t : Target μ) (nested : Aggregate μ → Layouting μ (TypeDescriptor μ))
    (a : Aggregate μ) : Layouting μ (Layout μ) :=
  match a.kind with
  | .struct => do
    let s ← a.members.foldlM (fun (s : PartialStruct μ) m => placing a m do
      let d ← t.typeWith nested m
      s.add t.profile a.packed m d) {}
    (s.finish t.profile a).computed
  | .union => do
    let placements ← a.members.mapM fun m => placing a m do
      let d ← t.typeWith nested m
      overlay t.profile m d
    (finishUnion a placements).computed

def remembered (keep : Bool) (a : Aggregate μ) (compute : Layouting μ (TypeDescriptor μ)) :
    Layouting μ (TypeDescriptor μ) := do
  match Memo.find? (← get) a with
  | some d => return d
  | none =>
    let d ← compute
    if keep then modify ((a, d) :: ·)
    return d

/-- What goes wrong when no level is left, which is told with the number of levels there are. -/
def tooDeep (t : Target μ) (a : Aggregate μ) : LayoutFailure μ :=
  match Measure.written t.maxDepth with
  | .error fault => .number fault
  | .ok () => .invalid { cause := .invalidMember (.tooDeep t.maxDepth),
                         aggregate := some (orAnonymous a.name) }

/-- Lays out an aggregate that stands inside the ones on the path, with so many levels left. -/
def layoutAt (t : Target μ) (keep : Bool) :
    Nat → List String → Aggregate μ → Layouting μ (Layout μ)
  | 0, path, a => do
    checkCycle path a
    throw (t.tooDeep a)
  | levels + 1, path, a => do
    checkCycle path a
    checkNames a [] a.members
    t.layoutWith (fun nested => remembered keep nested do
      let l ← layoutAt t keep levels (path ++ [orAnonymous a.name]) nested
      return l.descriptor) a

def levels (t : Target μ) : Nat := Measure.ceiling t.maxDepth

def noted (x : Layouting μ (Layout μ)) : Except (LayoutFailure μ) (Layout μ) := do
  let l ← x.run' []
  l.written.mapError .number
  return l

def layout (t : Target μ) (a : Aggregate μ) : Except (LayoutFailure μ) (Layout μ) :=
  noted (t.layoutAt true t.levels [] a)

/-- The layout with every nested aggregate laid out in its own place. -/
def layoutAfresh (t : Target μ) (a : Aggregate μ) : Except (LayoutFailure μ) (Layout μ) :=
  noted (t.layoutAt false t.levels [] a)

def describe (t : Target μ) (a : Aggregate μ) : Except (LayoutFailure μ) (TypeDescriptor μ) :=
  (t.layout a).map (·.descriptor)

def memberType (t : Target μ) (m : Member μ) : Except (LayoutFailure μ) (TypeDescriptor μ) :=
  (t.typeWith (fun nested => remembered true nested do
    let l ← t.layoutAt true t.levels [] nested
    return l.descriptor) m).run' []

end Target

end AggregateLayout
