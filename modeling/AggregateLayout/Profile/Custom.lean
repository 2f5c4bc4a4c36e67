import AggregateLayout.Profile.Builtin
import AggregateLayout.Document.Inline

namespace AggregateLayout

inductive ProfileFault where
  | unknownName (name : String)
  | notPowerOfTwo (field : String) (got : Document)
  | notPositive (field : String) (got : Document)
  | notDirection (got : Document)
  | notOrdered (relation : String) (got : Document)
  | notWhole
  | missingSizes (names : List String)
  | unexpectedField (name : String)

def ProfileFault.message : ProfileFault → String
  | .unknownName name => MachineProfile.unknownMessage name
  | .notPowerOfTwo field got => s!"{field} must be a positive power of two, got {got.plain}"
  | .notPositive field got => s!"{field} must be positive, got {got.plain}"
  | .notDirection got => s!"{got.inline} is not a valid BitfieldDirection"
  | .notOrdered relation got =>
    s!"'{relation}' not supported between instances of '{got.kindName}' and 'int'"
  | .notWhole => "unsupported operand type(s) for &: 'float' and 'float'"
  | .missingSizes names =>
    let number := if names.length == 1 then "1 required positional argument: "
      else s!"{names.length} required positional arguments: "
    "MachineProfile.custom() missing " ++ number ++
      " and ".intercalate (names.map fun name => s!"'{name}'")
  | .unexpectedField name =>
    s!"MachineProfile.__init__() got an unexpected keyword argument '{name}'"

namespace MachineProfile

def powerOf (field : String) (got : Document) : Except ProfileFault PowerOfTwo :=
  match Quantity.ofDocument? got with
  | none => .error (.notOrdered ">" got)
  | some n =>
    match Measure.power? n with
    | some power => .ok power
    | none =>
      .error (if !Measure.isWhole n && Measure.whole 0 < n then .notWhole
        else .notPowerOfTwo field got)

def positiveOf (field : String) (got : Document) :
    Except ProfileFault { n : Quantity // ¬ n ≤ Measure.whole 0 } :=
  match Quantity.ofDocument? got with
  | none => .error (.notOrdered "<=" got)
  | some n => if h : n ≤ Measure.whole 0 then .error (.notPositive field got) else .ok ⟨n, h⟩

def directionOf : Document → Except ProfileFault BitfieldDirection
  | .text s =>
    match BitfieldDirection.ofText? s with
    | some direction => .ok direction
    | none => .error (.notDirection (.text s))
  | got => .error (.notDirection got)

def fieldOr {α : Type} (fields : List (String × Document)) (name : String) (current : α)
    (convert : Document → Except ProfileFault α) : Except ProfileFault α :=
  match Table.find? name fields with
  | none => .ok current
  | some d => convert d

def optional {α : Type} (convert : Document → Except ProfileFault α) :
    Document → Except ProfileFault (Option α)
  | .null => .ok none
  | d => (convert d).map some

def withFields (p : MachineProfile Quantity) (fields : List (String × Document)) :
    Except ProfileFault (MachineProfile Quantity) := do
  let power (name : String) (current : PowerOfTwo) :=
    fieldOr fields name current (powerOf name)
  let optionalPower (name : String) (current : Option PowerOfTwo) :=
    fieldOr fields name current (optional (powerOf name))
  let wordSize ← power "word_size" p.wordSize
  let pointerSize ← power "pointer_size" p.pointerSize
  let cacheLineSize ← power "cache_line_size" p.cacheLineSize
  let enumSize ← power "enum_size" p.enumSize
  let longSize ← optionalPower "long_size" p.longSize
  let longDoubleSize ← fieldOr fields "long_double_size"
    ⟨p.longDoubleSize, p.longDoubleSize_pos⟩ (positiveOf "long_double_size")
  let longDoubleAlignment ← power "long_double_alignment" p.longDoubleAlignment
  let doubleAlignmentOverride ←
    optionalPower "double_alignment_override" p.doubleAlignmentOverride
  let bitfieldDirection ← fieldOr fields "bitfield_direction" p.bitfieldDirection directionOf
  let kept (name : String) (current : Document) := (Table.find? name fields).getD current
  return {
    label := kept "name" p.label
    wordSize, pointerSize, cacheLineSize, enumSize, longSize
    longDoubleSize := longDoubleSize.val
    longDoubleSize_pos := longDoubleSize.property
    longDoubleAlignment, doubleAlignmentOverride, bitfieldDirection
    byteRestart := kept "bitfield_byte_restart" p.byteRestart
    description := kept "description" p.description }

def fieldNames : List String :=
  ["word_size", "pointer_size", "cache_line_size", "bitfield_direction",
    "double_alignment_override", "long_size", "long_double_size", "long_double_alignment",
    "enum_size", "bitfield_byte_restart", "name"]

def custom (fields : List (String × Document)) : Except ProfileFault (MachineProfile Quantity) := do
  match Table.find? "word_size" fields, Table.find? "pointer_size" fields with
  | some word, some pointer =>
    let _ ← fieldOr fields "bitfield_direction" .lowToHigh directionOf
    match fields.find? fun (name, _) => !("description" :: fieldNames).contains name with
    | some (name, _) => throw (.unexpectedField name)
    | none =>
      let p ← withFields
        { label := .text s!"custom-w{word.plain}-p{pointer.plain}"
          wordSize := .eight
          pointerSize := .eight }
        fields
      return { p with label := .text p.name }
  | word, pointer =>
    throw (.missingSizes
      ((if word.isNone then ["word_size"] else []) ++
        if pointer.isNone then ["pointer_size"] else []))

end MachineProfile

end AggregateLayout
