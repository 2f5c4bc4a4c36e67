import AggregateLayout.Document.Inline
import AggregateLayout.Decimal.Numeral

namespace AggregateLayout.Document

inductive WholeFault where
  | notNumeral (numeral : String)
  | tooManyDigits (count : Nat)
  | notNumber (kind : String)
  | notANumber
  | unbounded
  deriving DecidableEq

def WholeFault.message : WholeFault → String
  | .notNumeral numeral =>
    "invalid literal for int() with base 10: " ++
      String.ofList ((Text.quoted numeral).toList.take 200)
  | .tooManyDigits count =>
    s!"Exceeds the limit ({Decimal.maxDigits} digits) for integer string conversion: value has " ++
      s!"{count} digits; use sys.set_int_max_str_digits() to increase the limit"
  | .notNumber kind =>
    "int() argument must be a string, a bytes-like object or a real number, not " ++ s!"'{kind}'"
  | .notANumber => "cannot convert float NaN to integer"
  | .unbounded => "cannot convert float infinity to integer"

def whole : Document → Except WholeFault Int
  | .boolean b => .ok b.toInt
  | .integer n => .ok n
  | .decimal x =>
    if x.isNaN then .error .notANumber
    else if x.isInf then .error .unbounded
    else .ok (Decimal.Dyadic.ofFloat x).truncate
  | .text s =>
    match Decimal.readInt s with
    | .ok n => .ok n
    | .error .malformed => .error (.notNumeral s)
    | .error (.tooManyDigits count) => .error (.tooManyDigits count)
  | d => .error (.notNumber d.kindName)

end AggregateLayout.Document
