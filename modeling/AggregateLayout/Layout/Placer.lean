import AggregateLayout.Layout
import AggregateLayout.LayoutError
import AggregateLayout.Profile

/-!
The members of a struct find their place one after the other. Plain members start at the next
multiple of their alignment. Bitfields in a row share storage units of their integer type: a field
never straddles the end of its unit, and what is left of a unit when it is closed is padding. Which
end of a unit is filled first depends on the profile.
-/

namespace AggregateLayout

variable {μ : Type} [Measure μ]

open AggregateLayout.Measure (whole)

def bitPosition (direction : BitfieldDirection) (used width unitBits : μ) : μ :=
  match direction with
  | .lowToHigh => used
  | .highToLow => unitBits - used - width

def checkBitfield (m : Member μ) (width : μ) (d : TypeDescriptor μ) :
    Except (LayoutFailure μ) Unit := do
  let fail (cause : LayoutCause μ) : Except (LayoutFailure μ) Unit :=
    .error (.invalid { cause, member := some m.name })
  if m.isArray then fail (.invalidMember .bitfieldArray)
  else if d.kind != .scalar || !d.isInteger then fail (.invalidMember (.notInteger d.name))
  else if width ≤ whole 0 || d.bitSize < width then
    (Measure.written width).mapError .number
    (Measure.written d.bitSize).mapError .number
    fail (.bitfieldWidth width d.bitSize)

structure StorageUnit (μ : Type) [Measure μ] where
  type : TypeDescriptor μ
  used : μ

namespace StorageUnit

def fits (u : StorageUnit μ) (width : μ) : Bool := u.used + width ≤ u.type.bitSize

def padding (u : StorageUnit μ) (direction : BitfieldDirection) (start length : μ) : Padding μ :=
  .bits start (bitPosition direction u.used length u.type.bitSize) length

def take (u : StorageUnit μ) (width : μ) : StorageUnit μ := { u with used := u.used + width }

/-- Bits to skip so that a field which fits in a byte does not straddle two. A unit that has no
room for the field then is left alone. -/
def skip? (u : StorageUnit μ) (width : μ) : Option μ :=
  let inByte := Measure.floorMod u.used 8
  let gap := whole 8 - inByte
  if whole 8 < width || inByte == whole 0 || inByte + width ≤ whole 8 || !(u.take gap).fits width
  then none
  else some gap

end StorageUnit

/-- Where placing has got to. -/
structure Placer (μ : Type) [Measure μ] where
  cursor : μ := whole 0
  unit : Option (StorageUnit μ) := none
  unitStart : μ := whole 0
  padding : List (Padding μ) := []

namespace Placer

def align (s : Placer μ) (alignment : PowerOfTwo) : Placer μ :=
  let start := roundUp s.cursor alignment
  if s.cursor < start then
    { s with cursor := start, padding := s.padding ++ [.bytes s.cursor (start - s.cursor)] }
  else { s with cursor := start }

def close (p : MachineProfile μ) (s : Placer μ) : Placer μ :=
  match s.unit with
  | none => s
  | some u =>
    let left := u.type.bitSize - u.used
    let rest := if whole 0 < left then [u.padding p.bitfieldDirection s.unitStart left] else []
    { s with unit := none, padding := s.padding ++ rest }

def restart (p : MachineProfile μ) (width : μ) (s : Placer μ) : Placer μ :=
  match s.unit with
  | none => s
  | some u =>
    match u.skip? width with
    | none => s
    | some gap =>
      if p.bitfieldByteRestart then
        { s with
          unit := some (u.take gap)
          padding := s.padding ++ [u.padding p.bitfieldDirection s.unitStart gap] }
      else s

def closeUnless (p : MachineProfile μ) (test : StorageUnit μ → Bool) (s : Placer μ) : Placer μ :=
  match s.unit with
  | none => s
  | some u => if test u then s else s.close p

def alignmentOf (packed : Bool) (d : TypeDescriptor μ) : PowerOfTwo :=
  if packed then .one else d.alignment

def openUnit (packed : Bool) (d : TypeDescriptor μ) (s : Placer μ) : Placer μ :=
  let s := s.align (alignmentOf packed d)
  { s with
    unit := some { type := d, used := whole 0 }
    unitStart := s.cursor
    cursor := s.cursor + d.size }

def takeBits (p : MachineProfile μ) (packed : Bool) (m : Member μ) (width : μ)
    (d : TypeDescriptor μ) (s : Placer μ) : Placement μ × Placer μ :=
  let (u, s) := match s.unit with
    | some u => (u, s)
    | none => ({ type := d, used := whole 0 }, s.openUnit packed d)
  let bits : BitRange μ :=
    { offset := bitPosition p.bitfieldDirection u.used width u.type.bitSize, width }
  ({ name := m.name, typeName := m.typeName, offset := s.unitStart, size := d.size,
     alignment := d.alignment, bits := some bits },
    { s with unit := some (u.take width) })

def placeBitfield (p : MachineProfile μ) (packed : Bool) (m : Member μ) (width : μ)
    (d : TypeDescriptor μ) (s : Placer μ) : Except (LayoutFailure μ) (Placement μ × Placer μ) := do
  checkBitfield m width d
  let s := s.closeUnless p (·.type.sameAs d)
  let s := s.restart p width
  let s := s.closeUnless p (·.fits width)
  return s.takeBits p packed m width d

def placePlain (p : MachineProfile μ) (packed : Bool) (m : Member μ) (d : TypeDescriptor μ)
    (s : Placer μ) : Placement μ × Placer μ :=
  let s := (s.close p).align (alignmentOf packed d)
  ({ name := m.name, typeName := m.typeName, offset := s.cursor, size := d.size,
     alignment := d.alignment },
    { s with cursor := s.cursor + d.size })

def place (p : MachineProfile μ) (packed : Bool) (m : Member μ) (d : TypeDescriptor μ)
    (s : Placer μ) : Except (LayoutFailure μ) (Placement μ × Placer μ) :=
  match m.bits with
  | some width => s.placeBitfield p packed m width d
  | none => .ok (s.placePlain p packed m d)

def computed (s : Placer μ) : Except NumberFault Unit := do
  Measure.computed s.cursor
  if let some u := s.unit then Measure.computed u.used

end Placer

end AggregateLayout
