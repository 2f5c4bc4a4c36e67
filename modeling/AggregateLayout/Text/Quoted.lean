import AggregateLayout.Text.Code
import AggregateLayout.Text.Printable

namespace AggregateLayout.Text

def hexCode (width code : Nat) : List Char :=
  let digits := Nat.toDigits 16 code
  List.replicate (width - digits.length) '0' ++ digits

def escapePrintable (quote c : Char) : List Char :=
  if c == '\\' || c == quote then ['\\', c] else [c]

def escapeCode (quote : Char) (code : Nat) : List Char :=
  if isPrintable code then escapePrintable quote (Char.ofNat code)
  else if code == '\n'.toNat then ['\\', 'n']
  else if code == '\r'.toNat then ['\\', 'r']
  else if code == '\t'.toNat then ['\\', 't']
  else if code < 0x100 then '\\' :: 'x' :: hexCode 2 code
  else if code < 0x10000 then '\\' :: 'u' :: hexCode 4 code
  else '\\' :: 'U' :: hexCode 8 code

def quoteFor (codes : List Nat) : Char :=
  if codes.contains '\''.toNat && !codes.contains '"'.toNat then '"' else '\''

def quoted (s : String) : String :=
  let quote := quoteFor (codes s)
  String.ofList (quote :: (codes s).flatMap (escapeCode quote) ++ [quote])

def quotedBytes (bytes : List UInt8) : String :=
  let codes := bytes.map UInt8.toNat
  let quote := quoteFor codes
  let escape (code : Nat) : List Char :=
    if code < 0x7f then escapeCode quote code else '\\' :: 'x' :: hexCode 2 code
  String.ofList ('b' :: quote :: codes.flatMap escape ++ [quote])

end AggregateLayout.Text
