import AggregateLayout.Text.Code
import AggregateLayout.Text.Word

namespace AggregateLayout.TypeName

open AggregateLayout.Text

def keywords : List (List Char) :=
  ["const", "volatile", "restrict", "struct", "union", "enum"].map String.toList

def dropKeywords (cs : List Char) : List Char :=
  (cs.splitBy fun a b => isWord a == isWord b).flatMap fun run =>
    if keywords.contains run then [' '] else run

def collapseBlanks : List Char → List Char
  | [] => []
  | c :: rest =>
    let tail := collapseBlanks rest
    if !isBlank c then c :: tail else if tail.head? == some ' ' then tail else ' ' :: tail

def tightenStars : List Char → List Char
  | [] => []
  | c :: rest =>
    let tail := tightenStars rest
    if isBlank c && tail.head? == some '*' then tail else c :: tail

def normalizeChars (cs : List Char) : List Char :=
  let trimmed := trimChars cs
  if trimmed == "enum".toList then trimmed
  else tightenStars (trimChars (collapseBlanks (dropKeywords trimmed)))

def normalize (name : String) : String := String.ofList (normalizeChars name.toList)

def isPointer (name : String) : Bool := name.toList.getLast? == some '*'

end AggregateLayout.TypeName
