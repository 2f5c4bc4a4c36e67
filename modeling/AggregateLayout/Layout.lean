import AggregateLayout.Aggregate

namespace AggregateLayout

structure BitRange (μ : Type) where
  offset : μ
  width : μ
  deriving DecidableEq

structure Placement (μ : Type) [Measure μ] where
  name : String
  typeName : String
  offset : μ
  size : Size μ
  alignment : PowerOfTwo
  bits : Option (BitRange μ) := none

variable {μ : Type} [Measure μ]

open AggregateLayout.Measure (whole written)

namespace Placement

def stop (p : Placement μ) : μ := p.offset + p.size

def sizeBits (p : Placement μ) : μ :=
  match p.bits with
  | some bits => bits.width
  | none => p.size.val * whole 8

def extentBits (p : Placement μ) : μ := p.size.val * whole 8

def written (p : Placement μ) : Except NumberFault Unit := do
  Measure.written p.offset
  Measure.written p.size.val
  if let some bits := p.bits then
    Measure.written bits.offset
    Measure.written bits.width

end Placement

inductive Padding (μ : Type) where
  | bytes (offset length : μ)
  | bits (unit bitOffset length : μ)
  deriving DecidableEq

namespace Padding

def offset : Padding μ → μ
  | .bytes offset _ => offset
  | .bits unit _ _ => unit

def length : Padding μ → μ
  | .bytes _ length => length
  | .bits _ _ length => length

def bitCount : Padding μ → μ
  | .bytes _ length => length * whole 8
  | .bits _ _ length => length

end Padding

structure Layout (μ : Type) [Measure μ] where
  name : String
  kind : AggregateKind
  placements : List (Placement μ)
  padding : List (Padding μ)
  totalSize : μ
  totalAlignment : PowerOfTwo
  packed : Bool

namespace Layout

def paddingBytes (l : Layout μ) : μ :=
  Measure.sum (l.padding.filterMap fun
    | .bytes _ length => some length
    | .bits .. => none)

def paddingBits (l : Layout μ) : μ := Measure.sum (l.padding.map Padding.bitCount)

/-- The members of a union overlay each other, so that only the largest counts. -/
def memberBits (l : Layout μ) : μ :=
  match l.kind, l.placements with
  | .union, [] => whole 0
  | .union, p :: rest => (rest.map Placement.extentBits).foldl Measure.larger p.extentBits
  | .struct, placements => Measure.sum (placements.map Placement.sizeBits)

def dataSize (l : Layout μ) : μ := Measure.floorDiv (l.memberBits + whole 7) 8

def wastePercent (l : Layout μ) : Except NumberFault Float :=
  if l.totalSize == whole 0 then .ok 0
  else do
    let padding ← Measure.nearest l.paddingBits
    let total ← Measure.nearest (l.totalSize * whole 8)
    return 100 * padding / total

def placement? (l : Layout μ) (name : String) : Option (Placement μ) :=
  l.placements.find? (·.name == name)

def trailingPadding (l : Layout μ) : μ :=
  match l.padding.getLast? with
  | some (.bytes offset length) => if offset + length == l.totalSize then length else whole 0
  | _ => whole 0

def written (l : Layout μ) : Except NumberFault Unit := do
  Measure.written l.totalSize
  Measure.written (l.totalAlignment.measure : μ)
  Measure.written l.paddingBits

end Layout

end AggregateLayout
