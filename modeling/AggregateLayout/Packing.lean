import AggregateLayout.Layout.Target

/-!
Reordering members for less padding. A size that is a multiple of its alignment leaves the cursor
aligned for everything that is looser, so with the strictest alignments first only the padding at
the end remains. Members of one group can be kept together, and then move as one unit with the
strictest alignment among them.
-/

namespace AggregateLayout

variable {μ : Type} [Measure μ]

open AggregateLayout.Measure (larger smaller)

structure PackingRules where
  preserveGroups : Bool := false
  cacheLineHint : Bool := false

/-- The order does not matter in a union, nor where nothing is aligned. -/
def Aggregate.hasFixedSize (a : Aggregate μ) : Bool := a.isUnion || a.packed

structure PackingUnit (μ : Type) [Measure μ] where
  members : List (Member μ)
  alignment : PowerOfTwo
  position : Nat

namespace PackingUnit

def tag? (u : PackingUnit μ) : Option String := u.members.head?.bind Member.tag?

def join (tag : String) (m : Member μ) (alignment : PowerOfTwo) (position : Nat) :
    List (PackingUnit μ) → List (PackingUnit μ)
  | [] => [{ members := [m], alignment, position }]
  | u :: rest =>
    if u.tag? == some tag then
      { u with members := u.members ++ [m], alignment := u.alignment.max alignment } :: rest
    else u :: join tag m alignment position rest

def add (rules : PackingRules) (m : Member μ) (alignment : PowerOfTwo) (position : Nat)
    (units : List (PackingUnit μ)) : List (PackingUnit μ) :=
  match m.tag? with
  | some tag =>
    if rules.preserveGroups then join tag m alignment position units
    else units ++ [{ members := [m], alignment, position }]
  | none => units ++ [{ members := [m], alignment, position }]

/-- The position that a unit sorts by: the one of the first unit of its group and alignment when
groups are to be drawn together. -/
def cluster (rules : PackingRules) (units : List (PackingUnit μ)) (u : PackingUnit μ) : Nat :=
  if rules.cacheLineHint && u.tag?.isSome then
    match units.find? fun v => v.tag? == u.tag? && v.alignment.val == u.alignment.val with
    | some leader => leader.position
    | none => u.position
  else u.position

def precedes (rules : PackingRules) (units : List (PackingUnit μ)) (u v : PackingUnit μ) : Bool :=
  let a := u.cluster rules units
  let b := v.cluster rules units
  if u.alignment.val ≠ v.alignment.val then v.alignment.val < u.alignment.val
  else if a ≠ b then a < b
  else u.position ≤ v.position

def sort (rules : PackingRules) (units : List (PackingUnit μ)) : List (PackingUnit μ) :=
  units.mergeSort (precedes rules units)

end PackingUnit

def Aggregate.withUnits (a : Aggregate μ) (units : List (PackingUnit μ)) : Aggregate μ :=
  { a with members := units.flatMap (·.members) }

def groupSpans (a : Aggregate μ) (l : Layout μ) : Table (μ × μ) :=
  a.members.foldl (fun spans m =>
    match m.tag?, l.placement? m.name with
    | some tag, some p =>
      if p.size.val == Measure.whole 0 then spans
      else
        let (start, stop) := (spans.find? tag).getD (p.offset, p.stop)
        spans.insert tag (smaller start p.offset, larger stop p.stop)
    | _, _ => spans) []

def straddlingGroups (a : Aggregate μ) (l : Layout μ) (line : PowerOfTwo) : Nat :=
  let lineOf (byte : μ) : μ := Measure.floorDiv byte line.val
  (groupSpans a l).values.countP fun (start, stop) =>
    !(lineOf start == lineOf (stop - Measure.whole 1))

structure Arrangement (μ : Type) [Measure μ] where
  units : List (PackingUnit μ)
  aggregate : Aggregate μ
  layout : Layout μ

def swapAt {α : Type} : Nat → List α → List α
  | 0, x :: y :: rest => y :: x :: rest
  | n + 1, x :: rest => x :: swapAt n rest
  | _, xs => xs

structure Repack (μ : Type) [Measure μ] where
  given : Aggregate μ
  aggregate : Aggregate μ
  givenLayout : Layout μ
  layout : Layout μ
  outgrown : Option μ := none

namespace Repack

def savings (r : Repack μ) : μ :=
  if r.given.hasFixedSize then Measure.whole 0 else r.givenLayout.totalSize - r.layout.totalSize

def keptOrder (r : Repack μ) : Bool := r.outgrown.isSome

def changed (r : Repack μ) : Bool := r.given.memberNames != r.aggregate.memberNames

def warning? (rules : PackingRules) (r : Repack μ) : Option String :=
  r.outgrown.bind fun size =>
    if rules.preserveGroups && r.given.members.any (·.tag?.isSome) then
      some (s!"{r.given.name}: reordering would grow size {r.givenLayout.totalSize} -> " ++
        s!"{size}; keeping original order, groups are left as declared")
    else none

end Repack

namespace Target

def units (t : Target μ) (rules : PackingRules) (a : Aggregate μ) :
    Except (LayoutFailure μ) (List (PackingUnit μ)) :=
  a.members.zipIdx.foldlM (fun units (m, position) => do
    let d ← t.memberType m
    return PackingUnit.add rules m d.alignment position units) []

def straddling (t : Target μ) (s : Arrangement μ) : Nat :=
  straddlingGroups s.aggregate s.layout t.profile.cacheLineSize

def arrange (t : Target μ) (a : Aggregate μ) (units : List (PackingUnit μ)) :
    Except (LayoutFailure μ) (Arrangement μ) := do
  let aggregate := a.withUnits units
  return { units, aggregate, layout := ← t.layout aggregate }

def exchange (t : Target μ) (s : Arrangement μ) (i : Nat) :
    Except (LayoutFailure μ) (Arrangement μ) := do
  match s.units[i]?, s.units[i + 1]? with
  | some u, some v =>
    if u.alignment.val ≠ v.alignment.val || (u.tag?.isNone && v.tag?.isNone) then return s
    else
      let trial ← t.arrange s.aggregate (swapAt i s.units)
      if trial.layout.totalSize ≤ s.layout.totalSize && t.straddling trial < t.straddling s then
        return trial
      else return s
  | _, _ => return s

def exchangeAll (t : Target μ) (s : Arrangement μ) : Except (LayoutFailure μ) (Arrangement μ) :=
  (List.range (s.units.length - 1)).foldlM t.exchange s

def settle (t : Target μ) : Nat → Arrangement μ → Except (LayoutFailure μ) (Arrangement μ)
  | 0, s => return s
  | passes + 1, s => do
    if t.straddling s == 0 then return s
    else
      let next ← t.exchangeAll s
      if t.straddling next < t.straddling s then t.settle passes next else return next

def pack (t : Target μ) (rules : PackingRules) (a : Aggregate μ) :
    Except (LayoutFailure μ) (Arrangement μ) := do
  let units ← t.units rules a
  let sorted ← t.arrange a (PackingUnit.sort rules units)
  if rules.cacheLineHint && rules.preserveGroups then t.settle units.length sorted
  else return sorted

/-- The packed order, or the given one when packing makes the aggregate larger. -/
def repack (t : Target μ) (rules : PackingRules) (a : Aggregate μ) :
    Except (LayoutFailure μ) (Repack μ) := do
  let givenLayout ← t.layout a
  let unchanged : Repack μ := { given := a, aggregate := a, givenLayout, layout := givenLayout }
  if a.hasFixedSize then return unchanged
  else
    let best ← t.pack rules a
    if givenLayout.totalSize < best.layout.totalSize then
      return { unchanged with outgrown := some best.layout.totalSize }
    else return { unchanged with aggregate := best.aggregate, layout := best.layout }

end Target

end AggregateLayout
