import AggregateLayout.Document
import AggregateLayout.Decimal.Numeral
import AggregateLayout.Text.Code

namespace AggregateLayout.Document

inductive SyntaxFault where
  | value
  | name
  | colon
  | comma
  | control
  | unterminated
  | escape
  | code
  | extra
  | byteOrderMark
  deriving DecidableEq

def SyntaxFault.text : SyntaxFault → String
  | .value => "Expecting value"
  | .name => "Expecting property name enclosed in double quotes"
  | .colon => "Expecting ':' delimiter"
  | .comma => "Expecting ',' delimiter"
  | .control => "Invalid control character at"
  | .unterminated => "Unterminated string starting at"
  | .escape => "Invalid \\escape"
  | .code => "Invalid \\uXXXX escape"
  | .extra => "Extra data"
  | .byteOrderMark => "Unexpected UTF-8 BOM (decode using utf-8-sig)"

inductive Container where
  | list
  | object
  deriving DecidableEq

def Container.text : Container → String
  | .list => "array"
  | .object => "object"

def maxDepth : Nat := 985

inductive Stop where
  | fault (kind : SyntaxFault) (left : Nat)
  | tooManyDigits (count : Nat)
  | tooDeep (container : Container)
  deriving DecidableEq

abbrev Scan (α : Type) := Except Stop (α × List Char)

def stopAt {α : Type} (kind : SyntaxFault) (cs : List Char) : Scan α :=
  .error (.fault kind cs.length)

def skipBlanks (cs : List Char) : List Char :=
  cs.dropWhile fun c => c == ' ' || c == '\t' || c == '\n' || c == '\r'

def hexDigit? (c : Char) : Option Nat :=
  if c.isDigit then some (c.toNat - '0'.toNat)
  else if 'a' ≤ c && c ≤ 'f' then some (c.toNat - 'a'.toNat + 10)
  else if 'A' ≤ c && c ≤ 'F' then some (c.toNat - 'A'.toNat + 10)
  else none

def hexCode? (a b c d : Char) : Option Nat := do
  return (((← hexDigit? a) * 16 + (← hexDigit? b)) * 16 + (← hexDigit? c)) * 16 + (← hexDigit? d)

def joinHalves : List Nat → List Nat
  | high :: low :: rest =>
    if Text.isHighHalf high && Text.isLowHalf low then
      (0x10000 + (high - 0xd800) * 0x400 + (low - 0xdc00)) :: joinHalves rest
    else high :: joinHalves (low :: rest)
  | codes => codes

def escapedChar? : Char → Option Char
  | '"' => some '"'
  | '\\' => some '\\'
  | '/' => some '/'
  | 'b' => some (Char.ofNat 8)
  | 'f' => some (Char.ofNat 12)
  | 'n' => some '\n'
  | 'r' => some '\r'
  | 't' => some '\t'
  | _ => none

def scanString (start : List Char) (taken : List Nat) : List Char → Scan String
  | [] => stopAt .unterminated start
  | '"' :: rest => .ok (Text.ofCodes (joinHalves taken.reverse), rest)
  | ['\\'] => stopAt .unterminated start
  | '\\' :: 'u' :: a :: b :: c :: d :: e :: rest =>
    match hexCode? a b c d with
    | some code => scanString start (code :: taken) (e :: rest)
    | none => stopAt .code ('u' :: a :: b :: c :: d :: e :: rest)
  | '\\' :: 'u' :: rest => stopAt .code ('u' :: rest)
  | '\\' :: c :: rest =>
    match escapedChar? c with
    | some escaped => scanString start (escaped.toNat :: taken) rest
    | none => stopAt .escape ('\\' :: c :: rest)
  | c :: rest =>
    if c.toNat < 0x20 then stopAt .control (c :: rest)
    else scanString start (c.toNat :: taken) rest

def scanFraction : List Char → List Char × List Char
  | '.' :: c :: rest =>
    if c.isDigit then (c :: rest.takeWhile Char.isDigit, rest.dropWhile Char.isDigit)
    else ([], '.' :: c :: rest)
  | cs => ([], cs)

def scanExponent : List Char → Option Int × List Char
  | e :: rest =>
    let (negative, tail) := Decimal.splitSign rest
    let ds := tail.takeWhile Char.isDigit
    if (e == 'e' || e == 'E') && !ds.isEmpty then
      let power : Nat := Decimal.valueOf ds
      (some (if negative then -(power : Int) else power), tail.dropWhile Char.isDigit)
    else (none, e :: rest)
  | [] => (none, [])

def scanNumber (cs : List Char) : Scan Document :=
  let (negative, body) := match cs with
    | '-' :: rest => (true, rest)
    | _ => (false, cs)
  let whole := match body with
    | '0' :: _ => ['0']
    | _ => body.takeWhile Char.isDigit
  if whole.isEmpty then stopAt .value cs
  else
    let (fraction, rest) := scanFraction (body.drop whole.length)
    let (power, rest) := scanExponent rest
    if fraction.isEmpty && power.isNone then
      if whole.length > Decimal.maxDigits then .error (.tooManyDigits whole.length)
      else
        let value : Nat := Decimal.valueOf whole
        .ok (.integer (if negative then -(value : Int) else value), rest)
    else
      let x := Decimal.ofDigits negative (whole ++ fraction) (power.getD 0 - fraction.length)
      .ok (.decimal x, rest)

mutual

/-- Reads a value with containers up to a depth. Each step takes one of `steps`, of which there are
twice as many as characters, and each character costs at most two. -/
def scanValue : Nat → Nat → List Char → Scan Document
  | 0, _, cs => stopAt .value cs
  | steps + 1, depth, cs =>
    match cs with
    | '"' :: rest => (scanString cs [] rest).map fun (s, rest) => (.text s, rest)
    | '[' :: rest =>
      match depth, skipBlanks rest with
      | 0, _ => .error (.tooDeep .list)
      | _, ']' :: rest => .ok (.list [], rest)
      | depth + 1, rest => scanItems steps depth [] rest
    | '\x7b' :: rest =>
      match depth, skipBlanks rest with
      | 0, _ => .error (.tooDeep .object)
      | _, '\x7d' :: rest => .ok (.object [], rest)
      | depth + 1, rest => scanFields steps depth [] rest
    | 'n' :: 'u' :: 'l' :: 'l' :: rest => .ok (.null, rest)
    | 't' :: 'r' :: 'u' :: 'e' :: rest => .ok (.boolean true, rest)
    | 'f' :: 'a' :: 'l' :: 's' :: 'e' :: rest => .ok (.boolean false, rest)
    | 'N' :: 'a' :: 'N' :: rest => .ok (.decimal (0 / 0), rest)
    | 'I' :: 'n' :: 'f' :: 'i' :: 'n' :: 'i' :: 't' :: 'y' :: rest => .ok (.decimal (1 / 0), rest)
    | '-' :: 'I' :: 'n' :: 'f' :: 'i' :: 'n' :: 'i' :: 't' :: 'y' :: rest =>
      .ok (.decimal (-(1 / 0)), rest)
    | cs => scanNumber cs

def scanItems : Nat → Nat → List Document → List Char → Except Stop (Document × List Char)
  | 0, _, _, cs => stopAt .value cs
  | steps + 1, depth, taken, cs => do
    let (item, rest) ← scanValue steps depth cs
    match skipBlanks rest with
    | ']' :: rest => .ok (.list (item :: taken).reverse, rest)
    | ',' :: rest => scanItems steps depth (item :: taken) (skipBlanks rest)
    | rest => stopAt .comma rest

def scanFields :
    Nat → Nat → List (String × Document) → List Char → Except Stop (Document × List Char)
  | 0, _, _, cs => stopAt .value cs
  | steps + 1, depth, taken, cs =>
    match cs with
    | '"' :: rest => do
      let (name, rest) ← scanString cs [] rest
      match skipBlanks rest with
      | ':' :: rest =>
        let (value, rest) ← scanValue steps depth (skipBlanks rest)
        let fields := Table.insert name value taken
        match skipBlanks rest with
        | '\x7d' :: rest => .ok (.object fields, rest)
        | ',' :: rest => scanFields steps depth fields (skipBlanks rest)
        | rest => stopAt .comma rest
      | rest => stopAt .colon rest
    | cs => stopAt .name cs

end

def scanDocument (cs : List Char) : Except Stop Document :=
  match cs with
  | '\uFEFF' :: _ => .error (.fault .byteOrderMark cs.length)
  | _ => do
    let (value, rest) ← scanValue (2 * cs.length + 2) maxDepth (skipBlanks cs)
    match skipBlanks rest with
    | [] => .ok value
    | rest => .error (.fault .extra rest.length)

inductive ReadFault where
  | malformed (kind : SyntaxFault) (line column offset : Nat)
  | tooManyDigits (count : Nat)
  | tooDeep (container : Container)
  deriving DecidableEq

def ReadFault.message : ReadFault → String
  | .malformed kind line column offset =>
    s!"{kind.text}: line {line} column {column} (char {offset})"
  | .tooManyDigits count =>
    s!"Exceeds the limit ({Decimal.maxDigits} digits) for integer string conversion: value has " ++
      s!"{count} digits; use sys.set_int_max_str_digits() to increase the limit"
  | .tooDeep container =>
    s!"maximum recursion depth exceeded while decoding a JSON {container.text} from a unicode " ++
      "string"

def locate (cs : List Char) : Stop → ReadFault
  | .fault kind left =>
    let before := cs.take (cs.length - left)
    let line := before.count '\n' + 1
    let column := (before.reverse.takeWhile (· != '\n')).length + 1
    .malformed kind line column before.length
  | .tooManyDigits count => .tooManyDigits count
  | .tooDeep container => .tooDeep container

def read (cs : List Char) : Except ReadFault Document := (scanDocument cs).mapError (locate cs)

end AggregateLayout.Document
