import AggregateLayout.Quantity

namespace AggregateLayout.Document

def sameNumber (a : Quantity) (d : Document) : Bool :=
  match Quantity.ofDocument? d with
  | some b => a == b
  | none => false

mutual

def sameAs : Document → Document → Bool
  | .null, .null => true
  | .boolean a, d => sameNumber (.flag a) d
  | .integer a, d => sameNumber (.whole a) d
  | .decimal a, d => sameNumber (.decimal a) d
  | .text a, .text b => a == b
  | .list items, .list others => sameItems items others
  | .object fields, .object others => fields.length == others.length && sameFields fields others
  | _, _ => false
termination_by structural d => d

def sameItems : List Document → List Document → Bool
  | [], [] => true
  | item :: rest, other :: others => sameAs item other && sameItems rest others
  | _, _ => false
termination_by structural items => items

def sameFields : List (String × Document) → List (String × Document) → Bool
  | [], _ => true
  | field :: rest, others => sameField field others && sameFields rest others
termination_by structural fields => fields

def sameField : String × Document → List (String × Document) → Bool
  | (name, value), others =>
    match Table.find? name others with
    | some other => sameAs value other
    | none => false
termination_by structural field => field

end

end AggregateLayout.Document
