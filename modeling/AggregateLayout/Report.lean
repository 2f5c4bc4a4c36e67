import AggregateLayout.Decimal.Fixed
import AggregateLayout.Document
import AggregateLayout.Packing

namespace AggregateLayout

variable {μ : Type} [Measure μ]

structure ReportRow (μ : Type) where
  name : Option String
  typeName : String := ""
  offset : μ
  size : μ
  bitOffset : Option μ := none

namespace ReportRow

def isPadding (r : ReportRow μ) : Bool := r.name.isNone

def unit (r : ReportRow μ) : String := if r.bitOffset.isSome then "bits" else "bytes"

def ofPlacement (p : Placement μ) : ReportRow μ :=
  match p.bits with
  | some bits =>
    { name := p.name, typeName := p.typeName, offset := p.offset, size := bits.width,
      bitOffset := bits.offset }
  | none => { name := p.name, typeName := p.typeName, offset := p.offset, size := p.size }

def ofPadding (p : Padding μ) : ReportRow μ :=
  match p with
  | .bytes offset length => { name := none, offset, size := length }
  | .bits unit bitOffset length => { name := none, offset := unit, size := length, bitOffset }

def precedes (r s : ReportRow μ) : Bool :=
  let last (r : ReportRow μ) := r.isPadding && r.bitOffset.isNone
  if r.offset == s.offset then !last r || last s else !(s.offset < r.offset)

def document (r : ReportRow Quantity) : Document :=
  let naming : List (String × Document) := match r.name with
    | some name => [("name", .text name), ("type", .text r.typeName)]
    | none => []
  let bit : List (String × Document) := match r.bitOffset with
    | some offset => [("bit_offset", offset.document)]
    | none => []
  .object ([("offset", r.offset.document), ("size", r.size.document), ("unit", .text r.unit)] ++
    naming ++ bit)

def padLeft (width : Nat) (s : String) : String :=
  String.ofList (List.replicate (width - s.length) ' ') ++ s

def padRight (width : Nat) (s : String) : String :=
  s ++ String.ofList (List.replicate (width - s.length) ' ')

def text (r : ReportRow Quantity) : String :=
  let bit := match r.bitOffset with
    | some offset => ":" ++ padRight 2 offset.columnText
    | none => "   "
  let place := "  " ++ padLeft 6 r.offset.columnText ++ bit ++ "  "
  match r.name with
  | none => place ++ s!"/* padding: {r.size} {r.unit} */"
  | some name => place ++ s!"{r.typeName} {name}; /* {r.size} {r.unit} */"

end ReportRow

structure Listing (μ : Type) [Measure μ] where
  layout : Layout μ
  rows : List (ReportRow μ)
  waste : Float

namespace Listing

def rowsOf (l : Layout μ) : List (ReportRow μ) :=
  (l.placements.map ReportRow.ofPlacement ++ l.padding.map ReportRow.ofPadding).mergeSort
    ReportRow.precedes

/-- A layout whose waste cannot be given as a number has no listing. -/
def ofLayout (l : Layout μ) : Except NumberFault (Listing μ) := do
  return { layout := l, rows := rowsOf l, waste := ← l.wastePercent }

def alignment (l : Listing Quantity) : Quantity := l.layout.totalAlignment.measure

def fields (l : Listing Quantity) : List (String × Document) :=
  let rows (keep : ReportRow Quantity → Bool) : Document :=
    .list ((l.rows.filter keep).map (·.document))
  [("name", .text l.layout.name), ("kind", .text l.layout.kind.text),
    ("members", rows (!·.isPadding)), ("padding", rows (·.isPadding)),
    ("total_size", l.layout.totalSize.document),
    ("total_alignment", l.alignment.document),
    ("padding_bytes", l.layout.paddingBytes.document),
    ("padding_bits", l.layout.paddingBits.document),
    ("waste_percent", .decimal (Decimal.rounded 2 l.waste)),
    ("packed", .boolean l.layout.packed), ("data_size", l.layout.dataSize.document)]

def lines (l : Listing Quantity) : List String :=
  let layout := l.layout
  let flags := if layout.packed then " packed" else ""
  [s!"{layout.kind.text} {orAnonymous layout.name} " ++ "\x7b"] ++ l.rows.map (·.text) ++
    ["\x7d" ++ s!"; /* size: {layout.totalSize}, align: {l.alignment}, " ++
      s!"padding: {layout.paddingBits} bits, waste: {Decimal.fixed 1 l.waste}%, " ++
      s!"data: {layout.dataSize} bytes{flags} */"]

end Listing

structure PackingSummary where
  repack : Repack Quantity
  wasteBefore : Float
  wasteAfter : Float
  listing : Option (Listing Quantity)

namespace PackingSummary

def ofRepack (r : Repack Quantity) : Except NumberFault PackingSummary := do
  let wasteBefore ← r.givenLayout.wastePercent
  let wasteAfter ← r.layout.wastePercent
  let listing ← if r.changed then (Listing.ofLayout r.layout).map some else pure none
  return { repack := r, wasteBefore, wasteAfter, listing }

def document (s : PackingSummary) : Document :=
  let r := s.repack
  .object ([("order", .list (r.aggregate.memberNames.map .text)),
    ("original_size", r.givenLayout.totalSize.document),
    ("repacked_size", r.layout.totalSize.document), ("savings", r.savings.document),
    ("waste_before_percent", .decimal (Decimal.rounded 2 s.wasteBefore)),
    ("waste_after_percent", .decimal (Decimal.rounded 2 s.wasteAfter)),
    ("kept_original_order", .boolean r.keptOrder)] ++
      match s.listing with
      | some l => [("layout", .object l.fields)]
      | none => [])

def lines (s : PackingSummary) : List String :=
  let r := s.repack
  let waste := s!"waste {Decimal.fixed 1 s.wasteBefore}% -> {Decimal.fixed 1 s.wasteAfter}%"
  [s!"/* repacked: {r.givenLayout.totalSize} -> {r.layout.totalSize} bytes, " ++
      s!"saved {r.savings}, {waste} */",
    "/* order: " ++ ", ".intercalate r.aggregate.memberNames ++ " */"]

end PackingSummary

structure Report where
  listing : Listing Quantity
  packing : Option PackingSummary

namespace Report

def ofLayout (l : Layout Quantity) (repack : Option (Repack Quantity)) :
    Except NumberFault Report := do
  let packing ← match repack with
    | some r => (PackingSummary.ofRepack r).map some
    | none => pure none
  return { listing := ← Listing.ofLayout l, packing }

def name (r : Report) : String := r.listing.layout.name

def document (r : Report) : Document :=
  .object (r.listing.fields ++
    match r.packing with
    | some s => [("repack", s.document)]
    | none => [])

def text (r : Report) : String :=
  let packing := match r.packing with
    | some s => s.lines
    | none => []
  "\n".intercalate (r.listing.lines ++ packing)

end Report

end AggregateLayout
