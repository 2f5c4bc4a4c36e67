import AggregateLayout.Decimal.Fixed

namespace AggregateLayout.Decimal

/-- A decimal grid with steps of `10 ^ scale` laid over a number's rounding interval. A grid point
`n` and the number are compared as `n * point` with `4 * significand * unit`, where a quarter of
the distance to the next number above is one `unit`. -/
structure Grid where
  scale : Int
  point : Nat
  unit : Nat

def Grid.of (d : Dyadic) (scale : Int) : Grid where
  scale := scale
  point := Nat.pow 10 scale.toNat * Nat.pow 2 (2 - d.exponent).toNat
  unit := Nat.pow 10 (-scale).toNat * Nat.pow 2 (d.exponent - 2).toNat

def quartersBelow (d : Dyadic) : Nat :=
  if d.significand == Nat.pow 2 52 && d.exponent != -1074 then 1 else 2

def Grid.reads (g : Grid) (d : Dyadic) (n : Nat) : Bool :=
  let low := (4 * d.significand - quartersBelow d) * g.unit
  let high := (4 * d.significand + 2) * g.unit
  let place := n * g.point
  if d.significand % 2 == 0 then low ≤ place && place ≤ high else low < place && place < high

def Grid.choose? (g : Grid) (d : Dyadic) : Option Nat :=
  let value := 4 * d.significand * g.unit
  let below := value / g.point
  match g.reads d below, g.reads d (below + 1) with
  | true, true => some (roundQuotient value g.point)
  | true, false => some below
  | false, true => some (below + 1)
  | false, false => none

def leadingPower (d : Dyadic) : Int :=
  let whole := d.numerator 0 / d.denominator
  if whole > 0 then ((Nat.toDigits 10 whole).length : Int) - 1
  else
    let inverse := (d.denominator + d.numerator 0 - 1) / d.numerator 0
    Int.negOfNat (Nat.toDigits 10 (inverse - 1)).length

def search (d : Dyadic) (scale : Int) : Nat → Nat × Int
  | 0 => (d.numerator 0 / d.denominator, 0)
  | tries + 1 =>
    match (Grid.of d scale).choose? d with
    | some n => (n, scale)
    | none => search d (scale - 1) tries

def digits (d : Dyadic) : List Char × Int :=
  let (n, scale) := search d (leadingPower d) 18
  let all := Nat.toDigits 10 n
  ((all.reverse.dropWhile (· == '0')).reverse, all.length + scale)

def exponentText (power : Int) : String :=
  let size := Nat.toDigits 10 power.natAbs
  (if power < 0 then "e-" else "e+") ++
    String.ofList (List.replicate (2 - size.length) '0' ++ size)

def layOut (ds : List Char) (point : Int) : String :=
  if -4 < point && point ≤ 16 then
    let whole := if point ≤ 0 then ['0'] else
      ds.take point.toNat ++ List.replicate (point.toNat - ds.length) '0'
    let fraction := List.replicate (-point).toNat '0' ++ ds.drop point.toNat
    String.ofList (whole ++ '.' :: if fraction.isEmpty then ['0'] else fraction)
  else
    let tail := if ds.length ≤ 1 then [] else '.' :: ds.drop 1
    String.ofList (ds.take 1 ++ tail) ++ exponentText (point - 1)

def shortest (x : Float) : String :=
  if x.isFinite then
    let d := Dyadic.ofFloat x
    if d.significand == 0 then signText d.negative ++ "0.0"
    else
      let (ds, point) := digits d
      signText d.negative ++ layOut ds point
  else unboundedText x

end AggregateLayout.Decimal
