import AggregateLayout.Document
import AggregateLayout.Text.Quoted
import AggregateLayout.Decimal.Shortest

namespace AggregateLayout.Document

def codeUnits (code : Nat) : List Nat :=
  if code < 0x10000 then [code]
  else [0xd800 + (code - 0x10000) / 0x400, 0xdc00 + (code - 0x10000) % 0x400]

def writePlain (c : Char) : List Char :=
  if c == '"' || c == '\\' then ['\\', c] else [c]

def writeCode (code : Nat) : List Char :=
  if 0x20 ≤ code && code < 0x7f then writePlain (Char.ofNat code)
  else if code == '\n'.toNat then ['\\', 'n']
  else if code == '\r'.toNat then ['\\', 'r']
  else if code == '\t'.toNat then ['\\', 't']
  else if code == 8 then ['\\', 'b']
  else if code == 12 then ['\\', 'f']
  else (codeUnits code).flatMap fun unit => '\\' :: 'u' :: Text.hexCode 4 unit

def writeText (s : String) : String :=
  String.ofList ('"' :: (Text.codes s).flatMap writeCode ++ ['"'])

def writeDecimal (x : Float) : String :=
  if x.isFinite then Decimal.shortest x
  else if x.isNaN then "NaN" else if x < 0 then "-Infinity" else "Infinity"

structure Spacing where
  opening : Nat → String
  between : Nat → String
  closing : Nat → String

def onOneLine : Spacing := ⟨fun _ => "", fun _ => ", ", fun _ => ""⟩

def indented : Spacing :=
  let margin (depth : Nat) := "\n" ++ String.ofList (List.replicate (2 * depth) ' ')
  ⟨fun depth => margin (depth + 1), fun depth => "," ++ margin (depth + 1), margin⟩

def Spacing.enclose (spacing : Spacing) (depth : Nat) (first last : String) :
    List String → String
  | [] => first ++ last
  | parts => first ++ spacing.opening depth ++ (spacing.between depth).intercalate parts ++
      spacing.closing depth ++ last

mutual

def write (spacing : Spacing) (depth : Nat) : Document → String
  | .null => "null"
  | .boolean value => if value then "true" else "false"
  | .integer value => toString value
  | .decimal value => writeDecimal value
  | .text value => writeText value
  | .list items => spacing.enclose depth "[" "]" (writeItems spacing (depth + 1) items)
  | .object fields =>
    spacing.enclose depth "\x7b" "\x7d" (writeFields spacing (depth + 1) fields)
termination_by structural d => d

def writeItems (spacing : Spacing) (depth : Nat) : List Document → List String
  | [] => []
  | item :: rest => write spacing depth item :: writeItems spacing depth rest
termination_by structural items => items

def writeFields (spacing : Spacing) (depth : Nat) : List (String × Document) → List String
  | [] => []
  | field :: rest => writeField spacing depth field :: writeFields spacing depth rest
termination_by structural fields => fields

def writeField (spacing : Spacing) (depth : Nat) : String × Document → String
  | (key, value) => writeText key ++ ": " ++ write spacing depth value
termination_by structural field => field

end

def line (d : Document) : String := write onOneLine 0 d

def lines (d : Document) : String := write indented 0 d

end AggregateLayout.Document
