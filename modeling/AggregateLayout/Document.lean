import AggregateLayout.Table

namespace AggregateLayout

inductive Document where
  | null
  | boolean (value : Bool)
  | integer (value : Int)
  | decimal (value : Float)
  | text (value : String)
  | list (items : List Document)
  | object (fields : List (String × Document))
  deriving Inhabited

namespace Document

def kindName : Document → String
  | .null => "NoneType"
  | .boolean _ => "bool"
  | .integer _ => "int"
  | .decimal _ => "float"
  | .text _ => "str"
  | .list _ => "list"
  | .object _ => "dict"

def isSet : Document → Bool
  | .null => false
  | .boolean value => value
  | .integer value => value ≠ 0
  | .decimal value => value != 0
  | .text value => !value.isEmpty
  | .list items => !items.isEmpty
  | .object fields => !fields.isEmpty

def field? (d : Document) (name : String) : Option Document :=
  match d with
  | .object fields => Table.find? name fields
  | _ => none

end Document

end AggregateLayout
