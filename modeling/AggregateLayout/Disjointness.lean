import AggregateLayout.Layout.Target

/-!
Assertions that members are never live at the same time. Overlaid variants save space as long as
the bytes that each of them uses do not meet. A member is named by its path through the nested
aggregates, with a dot between the names.
-/

namespace AggregateLayout

variable {μ : Type} [Measure μ]

open AggregateLayout.Measure (whole larger smaller)

structure Span (μ : Type) [Measure μ] where
  start : μ
  size : Size μ
  bits : Option (BitRange μ) := none

def Span.stop (s : Span μ) : μ := s.start + s.size

/-- The bytes that two members share. Two bitfields of one unit share some only when they share a
bit. -/
def Span.common? (a b : Span μ) : Option (μ × μ) :=
  let start := larger a.start b.start
  let stop := smaller a.stop b.stop
  let apart := match a.bits, b.bits with
    | some x, some y =>
      a.start == b.start && a.size.val == b.size.val &&
        smaller (x.offset + x.width) (y.offset + y.width) ≤ larger x.offset y.offset
    | _, _ => false
  if stop ≤ start || apart then none else some (start, stop)

namespace MemberPath

def cut : List Char → List Char × List (List Char)
  | [] => ([], [])
  | c :: rest =>
    let (first, others) := cut rest
    if c == '.' then ([], first :: others) else (c :: first, others)

def parts (path : String) : String × List String :=
  let (first, others) := cut path.toList
  (String.ofList first, others.map String.ofList)

end MemberPath

namespace Target

def inner? (t : Target μ) (m : Member μ) : Option (Aggregate μ) :=
  if m.isArray then none
  else
    match m.type with
    | .inline a => some a
    | .named name => t.catalog.aggregate? name
    | .descriptor _ => none

def spanFrom (t : Target μ) (root path : String) (a : Aggregate μ) (l : Layout μ) (base : μ)
    (part : String) (rest : List String) : Except (LayoutFailure μ) (Span μ) :=
  let fail (fault : MemberFault μ) : LayoutFailure μ :=
    .invalid { cause := .invalidMember fault, aggregate := some root, member := some path }
  match a.member? part, l.placement? part with
  | some m, some p =>
    let start := base + p.offset
    match rest with
    | [] => .ok { start, size := p.size, bits := p.bits }
    | next :: others =>
      match t.inner? m with
      | none => .error (fail (.notNested part path))
      | some nested => do
        let inside ← t.layout nested
        spanFrom t root path nested inside start next others
  | _, _ => .error (fail (.unknownPath path))
termination_by structural rest

def span (t : Target μ) (a : Aggregate μ) (l : Layout μ) (path : String) :
    Except (LayoutFailure μ) (Span μ) :=
  let (first, rest) := MemberPath.parts path
  t.spanFrom a.name path a l (whole 0) first rest

def report (a : Aggregate μ) (pair : String × String) :
    Option (μ × μ) → Except (LayoutFailure μ) Unit
  | none => .ok ()
  | some (start, stop) => do
    (Measure.written start).mapError .number
    (Measure.written stop).mapError .number
    throw (.invalid { cause := .overlap pair.1 pair.2 start stop, aggregate := some a.name,
                      member := some pair.1 })

def checkPair (t : Target μ) (a : Aggregate μ) (l : Layout μ) (pair : String × String) :
    Except (LayoutFailure μ) Unit := do
  let x ← t.span a l pair.1
  let y ← t.span a l pair.2
  report a pair (x.common? y)

def checkDisjoint (t : Target μ) (a : Aggregate μ) (l : Layout μ) :
    Except (LayoutFailure μ) Unit :=
  a.disjoint.forM (t.checkPair a l)

end Target

end AggregateLayout
