import AggregateLayout.Decimal.Dyadic

namespace AggregateLayout.Decimal

def compareInt? (n : Int) (x : Float) : Option Ordering :=
  if x.isNaN then none
  else if x.isInf then some (if x > 0 then .lt else .gt)
  else
    let d := Dyadic.ofFloat x
    let magnitude : Int := d.numerator 0
    some (compare (n * d.denominator) (if d.negative then -magnitude else magnitude))

def compare? (x y : Float) : Option Ordering :=
  if x < y then some .lt else if x == y then some .eq else if x > y then some .gt else none

def zeroLike (x : Float) : Float := if (Dyadic.ofFloat x).negative then -0.0 else 0.0

def truncatedRemainder (x y : Float) : Float :=
  if x.isNaN || y.isNaN || x.isInf || y == 0 then 0 / 0
  else if y.isInf then x
  else
    let a := Dyadic.ofFloat x
    let b := Dyadic.ofFloat y
    let unit := min a.exponent b.exponent
    let left := a.significand * Nat.pow 2 (a.exponent - unit).toNat %
      (b.significand * Nat.pow 2 (b.exponent - unit).toNat)
    let magnitude := (Float.ofNat left).scaleB unit
    if a.negative then -magnitude else magnitude

def floorMod (x y : Float) : Float :=
  let left := truncatedRemainder x y
  if left == 0 then zeroLike y
  else if (y < 0) != (left < 0) then left + y
  else left

def floorDiv (x y : Float) : Float :=
  let left := truncatedRemainder x y
  let quotient := (x - left) / y
  let quotient := if left != 0 && (y < 0) != (left < 0) then quotient - 1 else quotient
  if quotient == 0 then zeroLike (x / y)
  else if quotient - quotient.floor > 0.5 then quotient.floor + 1
  else quotient.floor

end AggregateLayout.Decimal
