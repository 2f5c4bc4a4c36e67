import AggregateLayout.Decimal.Division
import AggregateLayout.Document.Inline
import AggregateLayout.Measure

/-!
Quantities: the numbers of documents as a measure. A flag counts as one or zero and stays a flag
until something is computed from it. Whole numbers are exact. With a fraction they are first brought
to the nearest binary64 number, which the largest ones do not have.
-/

namespace AggregateLayout

inductive Quantity where
  | whole (value : Int)
  | flag (value : Bool)
  | decimal (value : Float)
  | beyond
  deriving Inhabited

namespace Quantity

def integer? : Quantity → Option Int
  | .whole n => some n
  | .flag b => some b.toInt
  | _ => none

def nearest : Quantity → Except NumberFault Float
  | .decimal x => .ok x
  | q =>
    match q.integer?.bind Decimal.ofInt? with
    | some x => .ok x
    | none => .error .tooLarge

def combine (exact : Int → Int → Int) (rounded : Float → Float → Float) (a b : Quantity) :
    Quantity :=
  match a.integer?, b.integer? with
  | some m, some n => .whole (exact m n)
  | _, _ =>
    match a.nearest, b.nearest with
    | .ok x, .ok y => .decimal (rounded x y)
    | _, _ => .beyond

def compare? (a b : Quantity) : Option Ordering :=
  match a.integer?, b.integer?, a, b with
  | some m, some n, _, _ => some (compare m n)
  | some m, none, _, .decimal y => Decimal.compareInt? m y
  | none, some n, .decimal x, _ => (Decimal.compareInt? n x).map Ordering.swap
  | none, none, .decimal x, .decimal y => Decimal.compare? x y
  | _, _, _, _ => none

def text : Quantity → String
  | .whole n => toString n
  | .flag b => (Document.boolean b).inline
  | .decimal x => Decimal.shortest x
  | .beyond => ""

def columnText : Quantity → String
  | .flag b => toString b.toInt
  | q => q.text

def document : Quantity → Document
  | .whole n => .integer n
  | .flag b => .boolean b
  | .decimal x => .decimal x
  | .beyond => .null

def ofDocument? : Document → Option Quantity
  | .integer n => some (.whole n)
  | .boolean b => some (.flag b)
  | .decimal x => some (.decimal x)
  | _ => none

/-- The first whole number that is too long to be written. -/
def tooLong : Nat := Nat.pow 10 Decimal.maxDigits

def ofFloatCeiling (x : Float) : Nat :=
  if x > 0 then
    if x.isFinite then (Decimal.Dyadic.ofFloat x.ceil).truncate.toNat else tooLong
  else 0

instance : Measure Quantity where
  add := combine (· + ·) (· + ·)
  sub := combine (· - ·) (· - ·)
  mul := combine (· * ·) (· * ·)
  lt a b := compare? a b = some .lt
  le a b := compare? a b = some .lt ∨ compare? a b = some .eq
  beq a b := compare? a b == some .eq
  toString := text
  whole := .whole
  flag := .flag
  floorDiv a n := combine (· / ·) Decimal.floorDiv a (.whole n)
  floorMod a n := combine (· % ·) Decimal.floorMod a (.whole n)
  power?
    | .flag b => if b then some .flagged else none
    | q => q.integer?.bind PowerOfTwo.ofInt?
  isWhole q := q.integer?.isSome
  ceiling
    | .decimal x => ofFloatCeiling x
    | q => (q.integer?.getD 0).toNat
  nearest := nearest
  fault?
    | .whole n => if n.natAbs < tooLong then none else some .tooManyDigits
    | .beyond => some .tooLarge
    | _ => none
  decidableLT _ _ := inferInstanceAs (Decidable (_ = _))
  decidableLE _ _ := inferInstanceAs (Decidable (_ ∨ _))
  whole_lt_whole a b := by simp [compare?, integer?, Int.compare_eq_lt]
  whole_le_whole a b := by
    simp only [compare?, integer?, Option.some.injEq, Int.compare_eq_lt, Int.compare_eq_eq]
    omega

inductive MultipleFault where
  | zero
  | fractionalZero
  | number (fault : NumberFault)
  deriving DecidableEq

def MultipleFault.message : MultipleFault → String
  | .zero => "integer division or modulo by zero"
  | .fractionalZero => "float floor division by zero"
  | .number fault => fault.message

def quotient (a b : Quantity) : Except MultipleFault Quantity :=
  match a.integer?, b.integer? with
  | some m, some n => if n = 0 then .error .zero else .ok (.whole (m.fdiv n))
  | _, _ => do
    let x ← a.nearest.mapError .number
    let y ← b.nearest.mapError .number
    if y == 0 then .error .fractionalZero else return .decimal (Decimal.floorDiv x y)

def roundUp (value alignment : Quantity) : Except MultipleFault Quantity := do
  let n := (← quotient (value + alignment - .whole 1) alignment) * alignment
  (Measure.computed n).mapError .number
  return n

end Quantity

end AggregateLayout
