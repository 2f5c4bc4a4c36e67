import AggregateLayout.Aggregate
import AggregateLayout.Document.Same
import AggregateLayout.Text.Utf8

namespace AggregateLayout.DebugInfo

inductive AttributeValue where
  | bytes (value : List UInt8)
  | stated (value : Document)

namespace AttributeValue

def integer? : AttributeValue → Option Quantity
  | .stated (.integer n) => some (.whole n)
  | .stated (.boolean b) => some (.flag b)
  | _ => none

def isMissing : AttributeValue → Bool
  | .stated .null => true
  | _ => false

def text : AttributeValue → String
  | .bytes value => Text.ofChars (Text.Utf8.decodeLossy value)
  | .stated d => d.plain

def inline : AttributeValue → String
  | .bytes value => Text.quotedBytes value
  | .stated d => d.inline

def isNumber (v : AttributeValue) (n : Quantity) : Bool :=
  match v with
  | .bytes _ => false
  | .stated d => Document.sameNumber n d

end AttributeValue

structure Entry where
  id : Int
  tag : String
  attributes : Table AttributeValue := []
  children : List Entry := []
  hasChildren : Bool := false

inductive Role where
  | aggregate (kind : AggregateKind)
  | qualifier
  | pointer
  | typedef
  | array
  | subrange
  | base
  | enumeration
  | member
  | inheritance
  | other
  deriving DecidableEq

def Role.ofTag : String → Role
  | "DW_TAG_structure_type" | "DW_TAG_class_type" => .aggregate .struct
  | "DW_TAG_union_type" => .aggregate .union
  | "DW_TAG_const_type" | "DW_TAG_volatile_type" | "DW_TAG_restrict_type"
  | "DW_TAG_atomic_type" => .qualifier
  | "DW_TAG_pointer_type" | "DW_TAG_reference_type" | "DW_TAG_rvalue_reference_type"
  | "DW_TAG_ptr_to_member_type" => .pointer
  | "DW_TAG_typedef" => .typedef
  | "DW_TAG_array_type" => .array
  | "DW_TAG_subrange_type" => .subrange
  | "DW_TAG_base_type" => .base
  | "DW_TAG_enumeration_type" => .enumeration
  | "DW_TAG_member" => .member
  | "DW_TAG_inheritance" => .inheritance
  | _ => .other

namespace Entry

def role (e : Entry) : Role := .ofTag e.tag

def attribute? (e : Entry) (name : String) : Option AttributeValue :=
  Table.find? name e.attributes

def has (e : Entry) (name : String) : Bool := (e.attribute? name).isSome

def value? (e : Entry) (name : String) : Option AttributeValue :=
  (e.attribute? name).filter (!·.isMissing)

def integer? (e : Entry) (name : String) : Option Quantity := (e.value? name).bind (·.integer?)

def name? (e : Entry) : Option String := (e.value? "name").map (·.text)

def properName? (e : Entry) : Option String := e.name?.filter (!·.isEmpty)

def aggregateKind? (e : Entry) : Option AggregateKind :=
  match e.role with
  | .aggregate kind => some kind
  | _ => none

/-- A complete definition and not only a declaration. -/
def isDefinition (e : Entry) : Bool :=
  !e.has "declaration" && (e.value? "byte_size").isSome && e.hasChildren

def isStatic (e : Entry) : Bool := e.has "external" && e.has "declaration"

def elementCount (e : Entry) : Quantity :=
  match e.integer? "count", e.integer? "upper_bound" with
  | some count, _ => count
  | none, some upper => upper - (e.integer? "lower_bound").getD (.whole 0) + .whole 1
  | none, none => .whole 0

def dimensions (e : Entry) : List Quantity :=
  (e.children.filter (·.role == .subrange)).map (·.elementCount)

mutual

def preorder : Entry → List Entry
  | ⟨id, tag, attributes, children, hasChildren⟩ =>
    ⟨id, tag, attributes, children, hasChildren⟩ :: preorderAll children
termination_by structural e => e

def preorderAll : List Entry → List Entry
  | [] => []
  | e :: rest => e.preorder ++ preorderAll rest
termination_by structural entries => entries

end

mutual

def postorder : Entry → List Entry
  | ⟨id, tag, attributes, children, hasChildren⟩ =>
    postorderAll children ++ [⟨id, tag, attributes, children, hasChildren⟩]
termination_by structural e => e

def postorderAll : List Entry → List Entry
  | [] => []
  | e :: rest => e.postorder ++ postorderAll rest
termination_by structural entries => entries

end

end Entry

abbrev Units := List (List Entry)

namespace Units

def entries (units : Units) : List Entry := units.flatMap Entry.preorderAll

/-- All entries, the one that counts for an identifier first: the last one recorded. -/
def index (units : Units) : List Entry := (units.flatMap Entry.postorderAll).reverse

def find? (units : Units) (id : Int) : Option Entry := units.index.find? (·.id == id)

def type? (units : Units) (e : Entry) : Option Entry :=
  match e.attribute? "type" with
  | some v => (v.integer?.bind Quantity.integer?).bind units.find?
  | none => none

end Units

end AggregateLayout.DebugInfo
