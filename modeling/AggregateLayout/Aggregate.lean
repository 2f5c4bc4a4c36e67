import AggregateLayout.TypeDescriptor

namespace AggregateLayout

inductive AggregateKind where
  | struct
  | union
  deriving DecidableEq

namespace AggregateKind

def text : AggregateKind → String
  | .struct => "struct"
  | .union => "union"

def ofText? (s : String) : Option AggregateKind := [struct, union].find? (·.text == s)

end AggregateKind

mutual

inductive TypeRef (μ : Type) [Measure μ] where
  | named (name : String)
  | descriptor (descriptor : TypeDescriptor μ)
  | inline (aggregate : Aggregate μ)

structure Member (μ : Type) [Measure μ] where
  name : String
  type : TypeRef μ
  dims : List μ := []
  bits : Option μ := none
  group : Option String := none

structure Aggregate (μ : Type) [Measure μ] where
  name : String
  kind : AggregateKind := .struct
  members : List (Member μ) := []
  packed : Bool := false
  disjoint : List (String × String) := []

end

def anonymous : String := "<anonymous>"

def orAnonymous (name : String) : String := if name.isEmpty then anonymous else name

variable {μ : Type} [Measure μ]

def TypeRef.name : TypeRef μ → String
  | .named name => name
  | .descriptor d => d.name
  | .inline a => a.name

namespace Member

def isBitfield (m : Member μ) : Bool := m.bits.isSome

def isArray (m : Member μ) : Bool := !m.dims.isEmpty

def typeName (m : Member μ) : String :=
  m.dims.foldl (fun s d => s ++ s!"[{d}]") (orAnonymous m.type.name)

def tag? (m : Member μ) : Option String := m.group.filter (!·.isEmpty)

end Member

mutual

def Aggregate.sameAs : Aggregate μ → Aggregate μ → Bool
  | ⟨name, kind, members, packed, _⟩, b =>
    name == b.name && kind == b.kind && packed == b.packed && sameMembers members b.members
termination_by structural a => a

def sameMembers : List (Member μ) → List (Member μ) → Bool
  | [], [] => true
  | m :: rest, n :: others => m.sameAs n && sameMembers rest others
  | _, _ => false
termination_by structural members => members

def Member.sameAs : Member μ → Member μ → Bool
  | ⟨name, type, dims, bits, group⟩, n =>
    name == n.name && type.sameAs n.type && dims == n.dims && bits == n.bits &&
      group == n.group
termination_by structural m => m

def TypeRef.sameAs : TypeRef μ → TypeRef μ → Bool
  | .named name, .named other => name == other
  | .descriptor d, .descriptor e => d.sameAs e
  | .inline a, .inline b => a.sameAs b
  | _, _ => false
termination_by structural t => t

end

namespace Aggregate

def isUnion (a : Aggregate μ) : Bool := a.kind == .union

def memberNames (a : Aggregate μ) : List String := a.members.map (·.name)

def member? (a : Aggregate μ) (name : String) : Option (Member μ) :=
  a.members.find? (·.name == name)

end Aggregate

end AggregateLayout
