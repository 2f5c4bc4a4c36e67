namespace AggregateLayout.Decimal

structure Dyadic where
  negative : Bool
  significand : Nat
  exponent : Int
  deriving DecidableEq

def Dyadic.ofFloat (x : Float) : Dyadic :=
  let bits : Nat := x.toBits.toNat
  let fraction : Nat := bits % Nat.pow 2 52
  let biased : Nat := bits / Nat.pow 2 52 % Nat.pow 2 11
  { negative := bits / Nat.pow 2 63 == 1
    significand := if biased == 0 then fraction else fraction + Nat.pow 2 52
    exponent := if biased == 0 then -1074 else (biased : Int) - 1075 }

def Dyadic.numerator (d : Dyadic) (places : Nat) : Nat :=
  d.significand * Nat.pow 10 places * Nat.pow 2 d.exponent.toNat

def Dyadic.denominator (d : Dyadic) : Nat := Nat.pow 2 (-d.exponent).toNat

def Dyadic.truncate (d : Dyadic) : Int :=
  let whole : Nat := d.numerator 0 / d.denominator
  if d.negative then -(whole : Int) else whole

def roundQuotient (numerator denominator : Nat) : Nat :=
  let quotient := numerator / denominator
  let twice := 2 * (numerator % denominator)
  if twice > denominator || (twice == denominator && quotient % 2 == 1) then quotient + 1
  else quotient

def ofInt? (n : Int) : Option Float :=
  let x := Float.ofInt n
  if x.isInf then none else some x

def maxDigits : Nat := 4300

end AggregateLayout.Decimal

namespace AggregateLayout

inductive NumberFault where
  /-- A whole number meets a fraction, and there is no binary64 number near it. -/
  | tooLarge
  | tooManyDigits
  deriving DecidableEq

def NumberFault.message : NumberFault → String
  | .tooLarge => "int too large to convert to float"
  | .tooManyDigits =>
    s!"Exceeds the limit ({Decimal.maxDigits} digits) for integer string conversion; " ++
      "use sys.set_int_max_str_digits() to increase the limit"

end AggregateLayout
