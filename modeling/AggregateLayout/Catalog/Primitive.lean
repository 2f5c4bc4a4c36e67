import AggregateLayout.Catalog

namespace AggregateLayout

namespace Catalog

variable {μ : Type} [Measure μ]

def integerSizes (p : MachineProfile μ) : List (String × PowerOfTwo) :=
  [("char", .one), ("signed char", .one), ("unsigned char", .one), ("bool", .one),
    ("_Bool", .one), ("short", .two), ("unsigned short", .two), ("int", .four),
    ("unsigned int", .four), ("long", p.effectiveLongSize), ("unsigned long", p.effectiveLongSize),
    ("long long", .eight), ("unsigned long long", .eight), ("size_t", p.pointerSize),
    ("ptrdiff_t", p.pointerSize), ("intptr_t", p.pointerSize), ("uintptr_t", p.pointerSize),
    ("enum", p.enumSize), ("int8_t", .one), ("uint8_t", .one), ("int16_t", .two),
    ("uint16_t", .two), ("int32_t", .four), ("uint32_t", .four), ("int64_t", .eight),
    ("uint64_t", .eight)]

/-- An integer is aligned to its size, except that one of eight bytes follows the rule for `double`
on a target with smaller words. -/
def integerAlignment (p : MachineProfile μ) (size : PowerOfTwo) : PowerOfTwo :=
  if size.val == 8 && p.wordSize.val < 8 then p.doubleAlignmentOverride.getD size else size

def primitives (p : MachineProfile μ) : List (TypeDescriptor μ) :=
  (integerSizes p).map (fun (name, size) =>
      .basic name (.of size.measure) (integerAlignment p size) .scalar true) ++
    [.basic "float" (.of (Measure.whole 4)) .four .scalar false,
      .basic "double" (.of (Measure.whole 8)) p.doubleAlignment .scalar false,
      .basic "long double" (.of p.longDoubleSize) p.longDoubleAlignment .scalar false]

def spellings : List (String × String) :=
  [("signed", "int"), ("unsigned", "unsigned int"), ("signed int", "int"),
    ("short int", "short"), ("signed short", "short"),
    ("unsigned short int", "unsigned short"), ("long int", "long"), ("signed long", "long"),
    ("unsigned long int", "unsigned long"), ("long long int", "long long"),
    ("signed long long", "long long"), ("unsigned long long int", "unsigned long long"),
    ("short unsigned int", "unsigned short"), ("long unsigned int", "unsigned long"),
    ("long long unsigned int", "unsigned long long")]

def ofProfile (p : MachineProfile μ) : Catalog μ :=
  let types := (primitives p).foldl register { profile := p }
  spellings.foldl (fun c (name, target) => c.registerAlias name target) types

end Catalog

end AggregateLayout
