import Mathlib
import AggregateLayout.DebugInfo.Conversion

namespace AggregateLayout.DebugInfo

namespace Entry

mutual

theorem mem_postorder_iff {x : Entry} : ∀ e : Entry, x ∈ e.postorder ↔ x ∈ e.preorder
  | ⟨id, tag, attributes, children, hasChildren⟩ => by
    unfold postorder preorder
    rw [List.mem_append, List.mem_singleton, List.mem_cons, mem_postorderAll_iff children]
    exact or_comm

theorem mem_postorderAll_iff {x : Entry} :
    ∀ entries : List Entry, x ∈ postorderAll entries ↔ x ∈ preorderAll entries
  | [] => Iff.rfl
  | e :: rest => by
    unfold postorderAll preorderAll
    rw [List.mem_append, List.mem_append, mem_postorder_iff e, mem_postorderAll_iff rest]

end

/-- A complete aggregate of that name. -/
structure Defines (e : Entry) (name : String) : Prop where
  aggregate : e.aggregateKind?.isSome
  named : e.properName? = some name
  complete : e.isDefinition

theorem properName_ne_empty {e : Entry} {name : String} (h : e.properName? = some name) :
    name.isEmpty = false := by
  obtain ⟨_, hname⟩ := Option.filter_eq_some_iff.mp h
  simpa using hname

theorem role_of_aggregate {e : Entry} (h : e.aggregateKind?.isSome) :
    ∃ kind, e.role = .aggregate kind := by
  unfold aggregateKind? at h
  cases hrole : e.role with
  | aggregate kind => exact ⟨kind, rfl⟩
  | _ =>
    rw [hrole] at h
    cases h

end Entry

namespace Units

variable {units : Units} {e t : Entry}

theorem mem_index_iff : e ∈ units.index ↔ e ∈ units.entries := by
  unfold index entries
  rw [List.mem_reverse, List.mem_flatMap, List.mem_flatMap]
  exact exists_congr fun unit => and_congr_right fun _ => Entry.mem_postorderAll_iff unit

theorem mem_of_type (h : units.type? e = some t) : t ∈ units.entries := by
  unfold type? at h
  split at h
  · obtain ⟨id, _, hfind⟩ := Option.bind_eq_some_iff.mp h
    exact mem_index_iff.mp (List.mem_of_find?_eq_some hfind)
  · cases h

def Apart (units : Units) : Prop := (units.entries.map (·.id)).Nodup

theorem Apart.eq_of_id (h : units.Apart) (he : e ∈ units.entries) (ht : t ∈ units.entries)
    (hid : e.id = t.id) : e = t :=
  List.inj_on_of_nodup_map h he ht hid

end Units

def renamed (name : String) :
    Option (TypeRef Quantity × List Quantity) → Option (TypeRef Quantity × List Quantity)
  | some (.named _, []) => some (.named name, [])
  | resolved => resolved

section Reading

variable (units : Units) (inner : Entry → Aggregate Quantity)

def readType : Nat → Entry → Option (TypeRef Quantity × List Quantity)
  | 0, _ => none
  | steps + 1, e =>
    match e.role with
    | .qualifier =>
      match units.type? e with
      | some target => readType steps target
      | none => none
    | .pointer => some (.named (pointeeName units e ++ "*"), [])
    | .typedef =>
      match units.type? e, e.properName? with
      | some target, some name => renamed name (readType steps target)
      | _, _ => none
    | .array =>
      match units.type? e with
      | some element =>
        (readType steps element).map fun (type, dims) => (type, e.dimensions ++ dims)
      | none => none
    | .aggregate _ =>
      match e.properName? with
      | some name => some (.named name, [])
      | none => some (.inline (inner e), [])
    | .base =>
      match e.properName?, e.integer? "byte_size" with
      | some name, some _ => some (.named name, [])
      | _, _ => none
    | .enumeration =>
      match e.integer? "byte_size" with
      | some size =>
        match TypeDescriptor.scalar (e.properName?.getD "enum") size none true with
        | .ok d => some (.descriptor d, [])
        | .error _ => none
      | none => some (.named "enum", [])
    | _ => none

def readMember (index : Nat) (e : Entry) : Option (Member Quantity) :=
  match units.type? e with
  | none => none
  | some target => (readType units inner (maxChain + 1) target).map fun (type, dims) =>
    { name := e.properName?.getD s!"__anon{index}", type, dims, bits := e.integer? "bit_size" }

def readBase (e : Entry) : Option (Member Quantity) :=
  match units.type? e with
  | none => none
  | some base =>
    match base.aggregateKind?, base.properName? with
    | some _, some name => some { name := s!"__base_{name}", type := .named name }
    | _, _ => none

def readPart (index : Nat) (e : Entry) : Option (Member Quantity) :=
  match e.role with
  | .inheritance => readBase units e
  | .member => if e.isStatic then none else readMember units inner index e
  | _ => none

def readParts (members : List (Member Quantity)) (children : List Entry) :
    List (Member Quantity) :=
  children.foldl (fun members e => members ++ (readPart units inner members.length e).toList)
    members

end Reading

def readAggregate (units : Units) : Nat → Entry → Aggregate Quantity
  | 0, _ => { name := "" }
  | levels + 1, e =>
    { name := e.properName?.getD "", kind := e.aggregateKind?.getD .struct,
      members := readParts units (readAggregate units levels) [] e.children }

/-- The entry is read as the aggregate at every depth that is large enough. -/
def Comes (units : Units) (e : Entry) (a : Aggregate Quantity) : Prop :=
  ∀ᶠ levels in Filter.atTop, readAggregate units levels e = a

variable {units : Units} {e : Entry}

theorem Comes.unique {a b : Aggregate Quantity} (ha : Comes units e a) (hb : Comes units e b) :
    a = b := by
  obtain ⟨levels, ha, hb⟩ := (ha.and hb).exists
  rw [← ha, hb]

theorem Comes.of_parts {members : List (Member Quantity)}
    (h : ∀ᶠ levels in Filter.atTop,
      readParts units (readAggregate units levels) [] e.children = members) :
    Comes units e
      { name := e.properName?.getD "", kind := e.aggregateKind?.getD .struct, members } := by
  unfold Comes
  rw [← Filter.map_add_atTop_eq_nat 1, Filter.eventually_map]
  filter_upwards [h] with levels hlevels
  unfold readAggregate
  rw [hlevels]

theorem Comes.name {a : Aggregate Quantity} (h : Comes units e a) :
    a.name = e.properName?.getD "" := by
  obtain ⟨levels, hlevels, hpos⟩ := (h.and (Filter.eventually_ge_atTop 1)).exists
  obtain ⟨depth, rfl⟩ := Nat.exists_eq_add_of_le' hpos
  rw [← hlevels]
  rfl

theorem Comes.name_of_proper {a : Aggregate Quantity} {name : String} (h : Comes units e a)
    (hname : e.properName? = some name) : a.name = name := by
  rw [h.name, hname]
  rfl

theorem Comes.proper_of_name {a : Aggregate Quantity} (h : Comes units e a)
    (hname : a.name.isEmpty = false) : ∃ name, e.properName? = some name := by
  rw [h.name] at hname
  cases hproper : e.properName? with
  | some name => exact ⟨name, rfl⟩
  | none =>
    rw [hproper] at hname
    cases hname

inductive Mentions : TypeRef Quantity → String → Prop
  | named {name : String} : Mentions (.named name) name
  | inline {a : Aggregate Quantity} {m : Member Quantity} {name : String} (hm : m ∈ a.members)
    (h : Mentions m.type name) : Mentions (.inline a) name

def Entry.passes (e : Entry) : Bool :=
  match e.role with
  | .qualifier | .array => true
  | .typedef => e.properName?.isSome
  | _ => false

theorem Entry.passes_of_aggregate {e : Entry} (h : e.aggregateKind?.isSome) :
    e.passes = false := by
  obtain ⟨kind, hrole⟩ := role_of_aggregate h
  simp only [passes, hrole]

/-- Within so many steps the entry leads to the aggregate, by value. -/
inductive Leads (units : Units) : Nat → Entry → Entry → Prop
  | here {steps : Nat} {x : Entry} (hx : x.aggregateKind?.isSome) : Leads units (steps + 1) x x
  | on {steps : Nat} {e t x : Entry} (he : e.passes) (ht : units.type? e = some t)
    (h : Leads units steps t x) : Leads units (steps + 1) e x

inductive PartLeads (units : Units) (e x : Entry) : Prop
  | member {t : Entry} (hrole : e.role = .member) (hstatic : e.isStatic = false)
    (ht : units.type? e = some t) (h : Leads units (maxChain + 1) t x)
  | base (hrole : e.role = .inheritance) (ht : units.type? e = some x)
    (hkind : x.aggregateKind?.isSome) (hname : x.properName?.isSome)

/-- The aggregate is held by value, be it inside aggregates without a name. -/
inductive Holds (units : Units) : Entry → Entry → Prop
  | part {e c x : Entry} (hc : c ∈ e.children) (h : PartLeads units c x) : Holds units e x
  | inside {e c y x : Entry} (hc : c ∈ e.children) (h : PartLeads units c y)
    (hy : y.properName? = none) (hx : Holds units y x) : Holds units e x

end AggregateLayout.DebugInfo
