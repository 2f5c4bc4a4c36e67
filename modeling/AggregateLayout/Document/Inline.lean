import AggregateLayout.Document
import AggregateLayout.Text.Quoted
import AggregateLayout.Decimal.Shortest

namespace AggregateLayout.Document

mutual

def inline : Document → String
  | .null => "None"
  | .boolean value => if value then "True" else "False"
  | .integer value => toString value
  | .decimal value => Decimal.shortest value
  | .text value => Text.quoted value
  | .list items => "[" ++ ", ".intercalate (inlineItems items) ++ "]"
  | .object fields => "\x7b" ++ ", ".intercalate (inlineFields fields) ++ "\x7d"
termination_by structural d => d

def inlineItems : List Document → List String
  | [] => []
  | item :: rest => inline item :: inlineItems rest
termination_by structural items => items

def inlineFields : List (String × Document) → List String
  | [] => []
  | field :: rest => inlineField field :: inlineFields rest
termination_by structural fields => fields

def inlineField : String × Document → String
  | (key, value) => Text.quoted key ++ ": " ++ inline value
termination_by structural field => field

end

def plain : Document → String
  | .text value => value
  | d => inline d

end AggregateLayout.Document
