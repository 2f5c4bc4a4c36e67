import AggregateLayout.Decimal.Dyadic
import AggregateLayout.PowerOfTwo

/-!
Measures: the numbers in which offsets, sizes and widths are counted. A layout is computed in the
same way whatever they are. Whole numbers of any size are the ideal measure: none of them is too
long to be written, and nothing can go wrong with them but that a percentage of them is too large.
The program counts in `Quantity`, which has flags and fractions as well and writes no whole number
of more than `Decimal.maxDigits` digits. `Target.exists_integral_layout` and
`Target.exists_integral_repack` carry what is laid out and packed in whole quantities over to the
ideal measure.
-/

namespace AggregateLayout

class Measure (μ : Type) extends Add μ, Sub μ, Mul μ, LT μ, LE μ, BEq μ, ToString μ where
  whole : Int → μ
  flag : Bool → μ
  floorDiv : μ → Nat → μ
  floorMod : μ → Nat → μ
  power? : μ → Option PowerOfTwo
  isWhole : μ → Bool
  ceiling : μ → Nat
  nearest : μ → Except NumberFault Float
  /-- Why a number cannot be written. -/
  fault? : μ → Option NumberFault
  decidableLT : (a b : μ) → Decidable (a < b)
  decidableLE : (a b : μ) → Decidable (a ≤ b)
  whole_lt_whole (a b : Int) : whole a < whole b ↔ a < b
  whole_le_whole (a b : Int) : whole a ≤ whole b ↔ a ≤ b

instance : Measure Int where
  whole := id
  flag := Bool.toInt
  floorDiv a n := a / n
  floorMod a n := a % n
  power? := PowerOfTwo.ofInt?
  isWhole _ := true
  ceiling := Int.toNat
  nearest a := match Decimal.ofInt? a with
    | some x => .ok x
    | none => .error .tooLarge
  fault? _ := none
  decidableLT := inferInstance
  decidableLE := inferInstance
  whole_lt_whole _ _ := Iff.rfl
  whole_le_whole _ _ := Iff.rfl

variable {μ : Type} [Measure μ]

namespace Measure

instance (priority := low) (a b : μ) : Decidable (a < b) := decidableLT a b

instance (priority := low) (a b : μ) : Decidable (a ≤ b) := decidableLE a b

def larger (a b : μ) : μ := if a < b then b else a

def smaller (a b : μ) : μ := if b < a then b else a

def sum (xs : List μ) : μ := xs.foldl (· + ·) (whole 0)

def computed (a : μ) : Except NumberFault Unit :=
  if fault? a = some .tooLarge then .error .tooLarge else .ok ()

def written (a : μ) : Except NumberFault Unit :=
  match fault? a with
  | some fault => .error fault
  | none => .ok ()

end Measure

open AggregateLayout.Measure

def PowerOfTwo.measure (a : PowerOfTwo) : μ := if a.isFlag then flag true else whole a.val

def roundUp (value : μ) (alignment : PowerOfTwo) : μ :=
  floorDiv (value + whole alignment.val - whole 1) alignment.val * whole alignment.val

@[ext]
structure Size (μ : Type) [Measure μ] where
  val : μ
  nonneg : ¬ val < whole 0

namespace Size

instance : CoeOut (Size μ) μ := ⟨Size.val⟩

def zero : Size μ where
  val := whole 0
  nonneg := fun h => Int.lt_irrefl 0 ((whole_lt_whole 0 0).mp h)

def of (a : μ) : Size μ := if h : a < whole 0 then zero else ⟨a, h⟩

end Size

end AggregateLayout
