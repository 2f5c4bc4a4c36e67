import AggregateLayout.Decimal.Dyadic

namespace AggregateLayout.Decimal

def signText (negative : Bool) : String := if negative then "-" else ""

def pointed (places units : Nat) : String :=
  let digits := Nat.toDigits 10 units
  let padded := List.replicate (places + 1 - digits.length) '0' ++ digits
  let cut := padded.length - places
  if places == 0 then String.ofList padded
  else String.ofList (padded.take cut ++ '.' :: padded.drop cut)

def unboundedText (x : Float) : String :=
  if x.isNaN then "nan" else if x < 0 then "-inf" else "inf"

def fixed (places : Nat) (x : Float) : String :=
  if x.isFinite then
    let d := Dyadic.ofFloat x
    signText d.negative ++ pointed places (roundQuotient (d.numerator places) d.denominator)
  else unboundedText x

def rounded (places : Nat) (x : Float) : Float :=
  if x.isFinite then
    let d := Dyadic.ofFloat x
    let y := Float.ofScientific (roundQuotient (d.numerator places) d.denominator) true places
    if d.negative then -y else y
  else x

end AggregateLayout.Decimal
