import AggregateLayout.DebugInfo
import AggregateLayout.Description
import AggregateLayout.Text.Code

/-!
The aggregates that debug information defines. Only the order, the types, the dimensions and the
bit widths of members are taken over, and offsets are computed anew. Chains of types are followed
the way a declaration reads: qualifiers say nothing, pointers are named for their target, typedefs
become aliases, arrays give dimensions, and aggregates without a name stand in their place.
-/

namespace AggregateLayout.DebugInfo

inductive ConversionFault where
  | type (fault : TypeFault Quantity)
  | endless
  | nameTaken (name : String)

def ConversionFault.message : ConversionFault → String
  | .type fault => fault.message
  | .endless => "maximum recursion depth exceeded"
  | .nameTaken name => Text.quoted name

structure Findings where
  converted : List (Int × Aggregate Quantity) := []
  named : Table (Aggregate Quantity) := []
  aliases : Table String := []
  fallbackTypes : List (TypeDescriptor Quantity) := []
  reportedSizes : Table AttributeValue := []
  log : List LogLine := []

abbrev Conversion := ExceptT ConversionFault (StateM Findings)

def maxChain : Nat := 20

def hexText (id : Int) : String :=
  (if id < 0 then "0x-" else "0x") ++ String.ofList (Nat.toDigits 16 id.natAbs)

def say (line : LogLine) : Conversion Unit :=
  modify fun found => { found with log := found.log ++ [line] }

def skipQualifiers (units : Units) : Nat → Entry → Option Entry
  | 0, e => some e
  | steps + 1, e =>
    if e.role == .qualifier then (units.type? e).bind (skipQualifiers units steps) else some e

def pointeeName (units : Units) (e : Entry) : String :=
  (((units.type? e).bind (skipQualifiers units maxChain)).bind (·.properName?)).getD "void"

def scalarOf (name : String) (size : Quantity) (isInteger : Bool) :
    Conversion (TypeDescriptor Quantity) :=
  match TypeDescriptor.scalar name size none isInteger with
  | .ok d => return d
  | .error fault => throw (.type fault)

def noteBase (e : Entry) (name : String) (size : Quantity) : Conversion Unit := do
  let found ← get
  if !found.fallbackTypes.any (·.name == name) then
    let isEncoded (code : Int) : Bool := (e.value? "encoding").any (·.isNumber (.whole code))
    let d ← scalarOf name size !(isEncoded 3 || isEncoded 4)
    modify fun found => { found with fallbackTypes := found.fallbackTypes ++ [d] }

def ensureNamed (convert : Entry → Conversion (Aggregate Quantity)) (e : Entry) :
    Conversion Unit := do
  match e.properName? with
  | none => return ()
  | some name =>
    if !(← get).named.contains name && e.isDefinition then
      let _ ← convert e

def typeOf (units : Units) (convert : Entry → Conversion (Aggregate Quantity)) :
    Nat → Entry → Conversion (Option (TypeRef Quantity × List Quantity))
  | 0, e => do
    say (.warning s!"Type chain too deep at DIE {hexText e.id}")
    return none
  | steps + 1, e => do
    match e.role with
    | .qualifier =>
      match units.type? e with
      | some target => typeOf units convert steps target
      | none => return none
    | .pointer => return some (.named (pointeeName units e ++ "*"), [])
    | .typedef =>
      match units.type? e, e.properName? with
      | some target, some name =>
        match ← typeOf units convert steps target with
        | some (.named target, []) =>
          modify fun found => { found with aliases := found.aliases.insert name target }
          return some (.named name, [])
        | resolved => return resolved
      | _, _ => return none
    | .array =>
      match units.type? e with
      | some element =>
        match ← typeOf units convert steps element with
        | some (type, dims) => return some (type, e.dimensions ++ dims)
        | none => return none
      | none => return none
    | .aggregate _ =>
      match e.properName? with
      | some name =>
        ensureNamed convert e
        return some (.named name, [])
      | none => return some (.inline (← convert e), [])
    | .base =>
      match e.properName?, e.integer? "byte_size" with
      | some name, some size =>
        noteBase e name size
        return some (.named name, [])
      | _, _ => return none
    | .enumeration =>
      match e.integer? "byte_size" with
      | some size =>
        let d ← scalarOf (e.properName?.getD "enum") size true
        return some (.descriptor d, [])
      | none => return some (.named "enum", [])
    | _ => return none

def memberOf (units : Units)
    (convert : Entry → Conversion (Aggregate Quantity)) (owner : String) (index : Nat) (e : Entry) :
    Conversion (Option (Member Quantity)) := do
  let name := e.properName?.getD s!"__anon{index}"
  match units.type? e with
  | none =>
    say (.warning s!"Member {owner}.{name} has no type; skipped")
    return none
  | some target =>
    match ← typeOf units convert (maxChain + 1) target with
    | some (type, dims) => return some { name, type, dims, bits := e.integer? "bit_size" }
    | none =>
      say (.warning s!"Could not resolve type of {owner}.{name}; skipped")
      return none

def baseOf (units : Units) (convert : Entry → Conversion (Aggregate Quantity))
    (e : Entry) : Conversion (Option (Member Quantity)) := do
  match units.type? e with
  | none => return none
  | some base =>
    match base.aggregateKind?, base.properName? with
    | some _, some name =>
      ensureNamed convert base
      return some { name := s!"__base_{name}", type := .named name }
    | _, _ => return none

def partOf (units : Units) (convert : Entry → Conversion (Aggregate Quantity))
    (owner : String) (index : Nat) (e : Entry) :
    Conversion (Option (Member Quantity)) :=
  match e.role with
  | .inheritance => baseOf units convert e
  | .member => if e.isStatic then return none else memberOf units convert owner index e
  | _ => return none

def note (e : Entry) (a : Aggregate Quantity) (found : Findings) : Findings :=
  let found := { found with converted := (e.id, a) :: found.converted }
  if a.name.isEmpty then found
  else
    let sizes := match e.value? "byte_size" with
      | some size => found.reportedSizes.insert a.name size
      | none => found.reportedSizes
    { found with named := found.named.insert a.name a, reportedSizes := sizes }

/-- The aggregate of an entry, with so many levels for what it nests. Nesting that runs out of them
is taken to have no end. -/
def convert (units : Units) : Nat → Entry → Conversion (Aggregate Quantity)
  | 0, _ => throw .endless
  | levels + 1, e => do
    match (← get).converted.lookup e.id with
    | some a => return a
    | none =>
      let name := e.properName?.getD ""
      let members ← e.children.foldlM (fun (members : List (Member Quantity)) child => do
        let m ← partOf units (convert units levels) name members.length child
        return members ++ m.toList) []
      let a : Aggregate Quantity := { name, kind := e.aggregateKind?.getD .struct, members }
      modify (note e a)
      return a

def requested? (names : Option (List String)) (e : Entry) : Option String :=
  if e.aggregateKind?.isNone || !e.isDefinition then none
  else e.properName?.filter fun name => names.all (·.contains name)

def convertWithin (units : Units) (levels : Nat) (names : Option (List String)) :
    Conversion (List String) :=
  units.entries.foldlM (fun done e => do
    match requested? names e with
    | none => return done
    | some name =>
      if done.contains name then return done
      else
        if !(← get).named.contains name then
          let _ ← convert units levels e
        return done ++ [name]) []

def Units.aggregates (units : Units) : List Entry :=
  units.entries.filter (·.aggregateKind?.isSome)

/-- Nesting that has an end comes to the same aggregate again only where something has been found in
between, be it by its place or by its name. -/
def maxLevels (units : Units) : Nat :=
  units.aggregates.length * (2 * units.aggregates.length + 1)

def convertAll (units : Units) (names : Option (List String)) : Conversion (List String) :=
  convertWithin units (maxLevels units) names

def namedIn (found : Findings) (name : String) : Except ConversionFault (Aggregate Quantity) :=
  match found.named.find? name with
  | some a => .ok a
  | none => .error (.nameTaken name)

def descriptionOf (names : List String) (found : Findings) :
    Except ConversionFault Description := do
  return {
    aliases := found.aliases
    aggregates := ← names.mapM (namedIn found)
    fallbackTypes := found.fallbackTypes
    definitions := (found.named.filter fun (name, _) => !names.contains name).map (·.2)
    reportedSizes := found.reportedSizes }

def describe (path : String) (units : Units) (names : Option (List String)) :
    Except ConversionFault Description × List LogLine :=
  match (convertAll units names).run {} with
  | (.error fault, found) => (.error fault, found.log)
  | (.ok done, found) =>
    let missing := (names.getD []).eraseDups.filter (!done.contains ·)
    let notes := (Text.sortNames missing).map fun name =>
      LogLine.warning s!"Aggregate {name} not found in DWARF info"
    match descriptionOf done found with
    | .error fault => (.error fault, found.log ++ notes)
    | .ok d =>
      let loaded := LogLine.info (s!"Loaded {d.aggregates.length} aggregates from {path} " ++
        s!"({d.definitions.length} dependencies)")
      (.ok d, found.log ++ notes ++ [loaded])

end AggregateLayout.DebugInfo
