import AggregateLayout.Catalog.Primitive
import AggregateLayout.DebugInfo
import AggregateLayout.Document.Reader
import AggregateLayout.Document.Whole
import AggregateLayout.Log
import AggregateLayout.Profile.Custom

namespace AggregateLayout

inductive TypeEntryFault where
  | number (fault : Document.WholeFault)
  | type (fault : TypeFault Quantity)

def TypeEntryFault.message : TypeEntryFault → String
  | .number fault => fault.message
  | .type fault => fault.message

inductive DescriptionFault where
  | notJson (path : String) (fault : Document.ReadFault)
  | notObject
  | typesNotList
  | aggregatesNotList
  | unknownProfile (name : String)
  | profileKind (kind : String)
  | unknownProfileFields (names : List String)
  | profileSizes
  | profile (fault : ProfileFault)
  | unnamedType (entry : Document)
  | typeSize (name : String)
  | type (name : String) (fault : TypeEntryFault)
  | aggregateNotObject (entry : Document)
  | unnamedAggregate (entry : Document)
  | unknownKind (name : String) (kind : Document)
  | membersNotList (name : String)
  | disjointPairs (name : String)
  | memberNotObject (owner : String) (entry : Document)
  | unnamedMember (owner : String) (entry : Document)
  | memberType (member : String)
  | bitWidth (member : String) (got : Document)
  | dimensions (member : String) (got : Document)

def DescriptionFault.message : DescriptionFault → String
  | .notJson path fault => s!"{path} is not valid JSON: {fault.message}"
  | .notObject => "Description must be a JSON object"
  | .typesNotList => "'types' must be a list"
  | .aggregatesNotList => "'aggregates' must be a list"
  | .unknownProfile name => MachineProfile.unknownMessage name
  | .profileKind kind => s!"Profile must be a name or an object, got {kind}"
  | .unknownProfileFields names => "Unknown profile fields: " ++ ", ".intercalate names
  | .profileSizes => "Custom profile needs word_size and pointer_size"
  | .profile fault => s!"Invalid profile: {fault.message}"
  | .unnamedType entry => s!"Type entry needs a name: {entry.inline}"
  | .typeSize name => s!"Type '{name}' needs a size or an alias"
  | .type name fault => s!"Invalid type '{name}': {fault.message}"
  | .aggregateNotObject entry => s!"Aggregate must be an object: {entry.inline}"
  | .unnamedAggregate entry => s!"Aggregate has no name: {entry.inline}"
  | .unknownKind name kind => s!"Aggregate '{name}' has unknown kind '{kind.plain}'"
  | .membersNotList name => s!"Members of '{name}' must be a list"
  | .disjointPairs name => s!"'disjoint' of '{name}' must be a list of member path pairs"
  | .memberNotObject owner entry => s!"Member of '{owner}' must be an object: {entry.inline}"
  | .unnamedMember owner entry => s!"Member of '{owner}' has no name: {entry.inline}"
  | .memberType member => s!"Member '{member}' has no type"
  | .bitWidth member got => s!"Bit width of '{member}' must be an integer: {got.inline}"
  | .dimensions member got =>
    s!"Array dimensions of '{member}' must be integers: {got.inline}"

inductive DescriptionError where
  | malformed (fault : DescriptionFault)
  | baseKind (kind : String)
  | unboundedSize

def DescriptionError.message : DescriptionError → String
  | .malformed fault => fault.message
  | .baseKind kind => s!"'{kind}' object has no attribute 'strip'"
  | .unboundedSize => Document.WholeFault.unbounded.message

structure Description where
  profile : Option (MachineProfile Quantity) := none
  types : List (TypeDescriptor Quantity) := []
  aliases : Table String := []
  aggregates : List (Aggregate Quantity) := []
  rejected : List (String × DescriptionFault) := []
  fallbackTypes : List (TypeDescriptor Quantity) := []
  definitions : List (Aggregate Quantity) := []
  reportedSizes : Table DebugInfo.AttributeValue := []

namespace Description

def rejections (d : Description) : List LogLine :=
  d.rejected.map fun (label, fault) => .error s!"[REJECTED] {label}: {fault.message}"

def defineAll (aggregates : List (Aggregate Quantity)) (c : Catalog Quantity) :
    Catalog Quantity :=
  aggregates.foldl (fun c a => (c.define? a).getD c) c

def registerFallback (c : Catalog Quantity) (d : TypeDescriptor Quantity) : Catalog Quantity :=
  if c.contains d.name then c else c.register d

def catalog (d : Description) (p : MachineProfile Quantity) : Catalog Quantity :=
  let types := d.types.foldl Catalog.register (Catalog.ofProfile p)
  let named := d.aliases.foldl (fun c (name, target) => c.registerAlias name target) types
  let all := d.fallbackTypes.foldl registerFallback named
  defineAll (d.definitions ++ d.aggregates) all

end Description

end AggregateLayout
