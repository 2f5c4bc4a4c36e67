import AggregateLayout.Decimal.Dyadic
import AggregateLayout.Text.Code

namespace AggregateLayout.Decimal

open AggregateLayout.Text

inductive NumeralFault where
  | malformed
  | tooManyDigits (count : Nat)
  deriving DecidableEq

def isNumeralBlank (c : Char) : Bool := isBlank c && !(28 ≤ c.toNat && c.toNat ≤ 31)

def trimNumeral (cs : List Char) : List Char :=
  ((cs.dropWhile isNumeralBlank).reverse.dropWhile isNumeralBlank).reverse

def plainDigits (afterDigit : Bool) : List Char → Option (List Char)
  | [] => some []
  | '_' :: c :: rest =>
    match afterDigit, digitValue? c with
    | true, some d => (plainDigits true rest).map (Nat.digitChar d :: ·)
    | _, _ => none
  | c :: rest =>
    match digitValue? c with
    | some d => (plainDigits true rest).map (Nat.digitChar d :: ·)
    | none => if c == '_' then none else (plainDigits false rest).map (c :: ·)

def splitSign : List Char → Bool × List Char
  | '-' :: rest => (true, rest)
  | '+' :: rest => (false, rest)
  | rest => (false, rest)

def valueOf (ds : List Char) : Nat :=
  ds.foldl (fun value c => 10 * value + (c.toNat - '0'.toNat)) 0

def numeralChar? (c : Char) : Option Char :=
  if c == '_' then some c else (digitValue? c).map Nat.digitChar

def underscoresBetween (cs : List Char) : Bool :=
  (cs.splitOn '_').all (!·.isEmpty)

def readInt (s : String) : Except NumeralFault Int :=
  let (negative, body) := splitSign (s.toList.dropWhile isNumeralBlank)
  let isNumeral (c : Char) : Bool := (numeralChar? c).isSome
  let run := (body.takeWhile isNumeral).filterMap numeralChar?
  let ds := run.filter (· != '_')
  if !underscoresBetween run then .error .malformed
  else if ds.length > maxDigits then .error (.tooManyDigits ds.length)
  else if !(body.dropWhile isNumeral).all isNumeralBlank then .error .malformed
  else .ok (if negative then -(valueOf ds : Int) else valueOf ds)

def ofDigits (negative : Bool) (ds : List Char) (power : Int) : Float :=
  let m := valueOf ds
  let size := (Nat.toDigits 10 m).length + power
  let magnitude : Float :=
    if m == 0 || size < -330 then 0
    else if size > 310 then 1 / 0
    else Float.ofScientific m (power < 0) power.natAbs
  if negative then -magnitude else magnitude

def readExponent : List Char → Option Int
  | [] => some 0
  | e :: rest =>
    let (negative, ds) := splitSign rest
    if (e == 'e' || e == 'E') && !ds.isEmpty && ds.all Char.isDigit then
      some (if negative then -(valueOf ds : Int) else valueOf ds)
    else none

def readMagnitude (negative : Bool) (cs : List Char) : Option Float :=
  let whole := cs.takeWhile Char.isDigit
  let rest := cs.dropWhile Char.isDigit
  let fraction := match rest with
    | '.' :: tail => tail.takeWhile Char.isDigit
    | _ => []
  let rest := match rest with
    | '.' :: tail => tail.dropWhile Char.isDigit
    | rest => rest
  if whole.isEmpty && fraction.isEmpty then none
  else (readExponent rest).map fun power =>
    ofDigits negative (whole ++ fraction) (power - fraction.length)

def readFloat? (s : String) : Option Float :=
  (plainDigits false (trimNumeral s.toList)).bind fun cs =>
    let (negative, cs) := splitSign cs
    let word := String.ofList (cs.map Char.toLower)
    if word == "nan" then some (0 / 0)
    else if word == "inf" || word == "infinity" then some (if negative then -(1 / 0) else 1 / 0)
    else readMagnitude negative cs

end AggregateLayout.Decimal
