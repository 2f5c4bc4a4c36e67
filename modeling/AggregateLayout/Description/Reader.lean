import AggregateLayout.Description
import AggregateLayout.Text.Code
import AggregateLayout.Text.Utf8

namespace AggregateLayout

namespace MachineProfile

def ofFields (fields : Table Document) : Except DescriptionError (MachineProfile Quantity) := do
  let options := fields.filter (·.1 != "base")
  let unknown := (Table.keys options).filter fun name => !fieldNames.contains name
  if !unknown.isEmpty then throw (.malformed (.unknownProfileFields (Text.sortNames unknown)))
  let build (result : Except ProfileFault (MachineProfile Quantity)) :=
    result.mapError fun fault => DescriptionError.malformed (.profile fault)
  match (Table.find? "base" fields).getD .null with
  | .null =>
    if Table.contains "word_size" options && Table.contains "pointer_size" options then
      build (custom options)
    else throw (.malformed .profileSizes)
  | .text base =>
    match named? base with
    | some p => build (p.withFields options)
    | none => throw (.malformed (.profile (.unknownName base)))
  | base => throw (.baseKind base.kindName)

def ofDocument : Document → Except DescriptionError (MachineProfile Quantity)
  | .text name =>
    match named? name with
    | some p => .ok p
    | none => .error (.malformed (.unknownProfile name))
  | .object fields => ofFields fields
  | d => .error (.malformed (.profileKind d.kindName))

end MachineProfile

namespace Description

abbrev Part (α : Type) := Except DescriptionFault α

inductive TypeEntry where
  | alias (name target : String)
  | type (descriptor : TypeDescriptor Quantity)

def wholeField (name : String) (value : Document) : Except DescriptionError Int :=
  value.whole.mapError fun
    | .unbounded => .unboundedSize
    | fault => .malformed (.type name (.number fault))

def readType (entry : Document) : Except DescriptionError TypeEntry :=
  match entry.field? "name" with
  | some (.text name) =>
    match entry.field? "alias", entry.field? "size" with
    | some target, _ => .ok (.alias name target.plain)
    | none, none => .error (.malformed (.typeSize name))
    | none, some size => do
      let size ← wholeField name size
      let alignment ← match entry.field? "alignment" with
        | some alignment => wholeField name alignment
        | none => pure (if size > 0 then size else 1)
      let isInteger := ((entry.field? "integer").map (·.isSet)).getD false
      match TypeDescriptor.scalar name (.whole size) (some (.whole alignment)) isInteger with
      | .ok d => return .type d
      | .error fault => throw (.malformed (.type name (.type fault)))
  | _ => .error (.malformed (.unnamedType entry))

def readDims (member : String) : Document → Part (List Quantity)
  | .null => .ok []
  | d =>
    let items := match d with
      | .list items => items
      | d => [d]
    let dims := items.mapM fun
      | .integer n => some (.whole n)
      | _ => none
    match dims with
    | some dims => .ok dims
    | none => .error (.dimensions member d)

def readBits (place : String) : Document → Part (Option Quantity)
  | .null => .ok none
  | .integer n => .ok (some (.whole n))
  | d => .error (.bitWidth place d)

def fieldOrNull (name : String) (fields : Table Document) : Document :=
  (fields.find? name).getD .null

def readMemberWith (owner : String) (fields : Table Document)
    (type : String → Part (TypeRef Quantity)) : Part (Member Quantity) :=
  let unnamed : Part (Member Quantity) := .error (.unnamedMember owner (.object fields))
  match fields.find? "name" with
  | some (.text name) =>
    if name.isEmpty then unnamed
    else do
      let place := s!"{owner}.{name}"
      let type ← type place
      let bits ← readBits place (fieldOrNull "bits" fields)
      let dims ← readDims name (fieldOrNull "array" fields)
      let group := fieldOrNull "group" fields
      return { name, type, dims, bits, group := if group.isSet then some group.plain else none }
  | _ => unnamed

def readPairs : Document → Option (List (String × String))
  | .list pairs => pairs.mapM fun
    | .list [.text first, .text second] => some (first, second)
    | _ => none
  | _ => none

def readName (fallback : Option String) (fields : Table Document) :
    Part String :=
  let unnamed : Part String := .error (.unnamedAggregate (.object fields))
  match (fields.find? "name").or (fallback.map .text) with
  | some (.text name) => if fallback.isNone && name.isEmpty then unnamed else .ok name
  | _ => unnamed

def readKind (name : String) (kind : Document) : Part AggregateKind :=
  match AggregateKind.ofText? (Text.lower kind.plain) with
  | some kind => .ok kind
  | none => .error (.unknownKind name kind)

def readAggregateWith (fallback : Option String) (fields : Table Document)
    (members : String → Part (List (Member Quantity))) : Part (Aggregate Quantity) := do
  let name ← readName fallback fields
  let kind ← readKind name ((fields.find? "kind").getD (.text "struct"))
  match fields.find? "members" with
  | none | some (.list _) => pure ()
  | some _ => throw (.membersNotList name)
  match readPairs ((fields.find? "disjoint").getD (.list [])) with
  | none => throw (.disjointPairs name)
  | some disjoint =>
    let members ← members (orAnonymous name)
    return { name, kind, members, packed := (fieldOrNull "packed" fields).isSet, disjoint }

mutual

def typeIn (place : String) : List (String × Document) → Part (TypeRef Quantity)
  | [] => .error (.memberType place)
  | field :: rest => if field.1 == "type" then typeOfField place field else typeIn place rest
termination_by structural fields => fields

def typeOfField (place : String) : String × Document → Part (TypeRef Quantity)
  | (_, d) => readTypeRef place d
termination_by structural field => field

def readTypeRef (place : String) : Document → Part (TypeRef Quantity)
  | .text name => if (Text.trim name).isEmpty then .error (.memberType place) else .ok (.named name)
  | .object fields =>
    (readAggregateWith (some "") fields fun owner => membersIn owner fields).map .inline
  | _ => .error (.memberType place)
termination_by structural d => d

def membersIn (owner : String) : List (String × Document) → Part (List (Member Quantity))
  | [] => .ok []
  | field :: rest =>
    if field.1 == "members" then membersOfField owner field else membersIn owner rest
termination_by structural fields => fields

def membersOfField (owner : String) : String × Document → Part (List (Member Quantity))
  | (_, d) => readMembers owner d
termination_by structural field => field

def readMembers (owner : String) : Document → Part (List (Member Quantity))
  | .list items => readMemberItems owner items
  | _ => .ok []
termination_by structural d => d

def readMemberItems (owner : String) : List Document → Part (List (Member Quantity))
  | [] => .ok []
  | item :: rest => do
    let m ← readMember owner item
    return m :: (← readMemberItems owner rest)
termination_by structural items => items

def readMember (owner : String) : Document → Part (Member Quantity)
  | .object fields => readMemberWith owner fields fun place => typeIn place fields
  | d => .error (.memberNotObject owner d)
termination_by structural d => d

end

def readAggregate (fallback : Option String) : Document → Part (Aggregate Quantity)
  | .object fields => readAggregateWith fallback fields fun owner => membersIn owner fields
  | d => .error (.aggregateNotObject d)

def label (index : Nat) (entry : Document) : String :=
  match entry.field? "name" with
  | some (.text name) => if name.isEmpty then s!"#{index}" else name
  | _ => s!"#{index}"

def readTypes (entries : List Document) (d : Description) : Except DescriptionError Description :=
  entries.foldlM (fun d entry => do
    match ← readType entry with
    | .alias name target => return { d with aliases := d.aliases.insert name target }
    | .type descriptor => return { d with types := d.types ++ [descriptor] }) d

def acceptedOf (entries : List Document) : List (Aggregate Quantity) :=
  entries.filterMap fun entry => (readAggregate none entry).toOption

def rejectedOf (entries : List Document) : List (String × DescriptionFault) :=
  entries.zipIdx.filterMap fun (entry, index) =>
    match readAggregate none entry with
    | .ok _ => none
    | .error fault => some (label index entry, fault)

def ofDocument : Document → Except DescriptionError Description
  | .object fields => do
    let profile ← match Table.find? "profile" fields with
      | some d => (MachineProfile.ofDocument d).map some
      | none => pure none
    let d ← match (Table.find? "types" fields).getD (.list []) with
      | .list entries => readTypes entries { profile }
      | _ => throw (.malformed .typesNotList)
    match Table.find? "aggregates" fields with
    | some (.list entries) =>
      return { d with aggregates := acceptedOf entries, rejected := rejectedOf entries }
    | _ => throw (.malformed .aggregatesNotList)
  | _ => .error (.malformed .notObject)

end Description

end AggregateLayout
