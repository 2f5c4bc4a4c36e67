import AggregateLayout.DebugInfo.Conversion
import AggregateLayout.Description.Reader
import AggregateLayout.FileTree
import AggregateLayout.ObjectFile

namespace AggregateLayout

inductive InputFault where
  | file (fault : FileFault)
  | encoding (fault : Text.Utf8.Fault)
  | number (fault : Document.ReadFault)
  | depth (fault : Document.ReadFault)
  | description (error : DescriptionError)
  | objectFile (reason : String)
  | noDebugInfo (path : Path)
  | notOpen
  | conversion (fault : DebugInfo.ConversionFault)

def InputFault.message : InputFault → String
  | .file fault => fault.message
  | .encoding fault => fault.message
  | .number fault => fault.message
  | .depth fault => fault.message
  | .description error => error.message
  | .objectFile reason => reason
  | .noDebugInfo p => s!"{p.text} has no DWARF debug information"
  | .notOpen => "ELF file not open. Use the loader as a context manager."
  | .conversion fault => fault.message

abbrev Loaded (α : Type) := Except InputFault α × List LogLine

namespace Description

def readDocument (p : Path) (bytes : List UInt8) : Except InputFault Document := do
  let text ← (Text.Utf8.decodeLines bytes).mapError .encoding
  match Document.read text with
  | .ok d => return d
  | .error (.tooManyDigits count) => throw (.number (.tooManyDigits count))
  | .error (.tooDeep container) => throw (.depth (.tooDeep container))
  | .error fault => throw (.description (.malformed (.notJson p.text fault)))

def ofBytes (p : Path) (bytes : List UInt8) : Loaded Description :=
  match readDocument p bytes with
  | .error fault => (.error fault, [])
  | .ok document =>
    let loaded := LogLine.info s!"Loaded description from {p.text}"
    match ofDocument document with
    | .ok d => (.ok d, loaded :: d.rejections)
    | .error e => (.error (.description e), [loaded])

def load (t : FileTree) (p : Path) : Loaded Description :=
  match t.read p with
  | .ok bytes => ofBytes p bytes
  | .error fault => (.error (.file fault), [])

def select (names : List String) (d : Description) : Description :=
  let (chosen, others) := d.aggregates.partition fun a => names.contains a.name
  { d with aggregates := chosen, definitions := d.definitions ++ others }

def missing (names : List String) (d : Description) : List String :=
  Text.sortNames (names.eraseDups.filter fun name => !d.aggregates.any (·.name == name))

end Description

namespace ObjectFile

def description (f : ObjectFile) (p : Path) (names : Option (List String)) :
    Loaded Description :=
  match f.units with
  | none => (.error (.noDebugInfo p), [])
  | some units =>
    let (result, log) := DebugInfo.describe p.text units names
    (result.mapError .conversion, log)

def detect (opener : Opener) (t : FileTree) (path : String) :
    Except FileFault (Option (MachineProfile Quantity) × List LogLine) :=
  let failure (reason : String) : LogLine :=
    .error s!"Failed to detect platform from {path}: {reason}"
  match t.readAt path with
  | .error .nullCharacter => .error .nullCharacter
  | .error (.unencodable fault) => .error (.unencodable fault)
  | .error fault => .ok (none, [failure fault.message])
  | .ok bytes =>
    match opener bytes with
    | .error reason => .ok (none, [failure reason])
    | .ok f => .ok (some f.profile, [f.detection])

def isAt (t : FileTree) (path : String) : Bool :=
  match t.readAt path with
  | .ok bytes => hasMagic bytes
  | .error _ => false

end ObjectFile

structure Input where
  description : Description
  profile : Option (MachineProfile Quantity)

namespace Input

def ofObjectFile (opener : ObjectFile.Opener) (p : Path) (bytes : List UInt8)
    (names : Option (List String)) : Loaded Input :=
  match opener bytes with
  | .error reason => (.error (.objectFile reason), [])
  | .ok f =>
    match f.description p names with
    | (.error fault, log) => (.error fault, log)
    | (.ok d, log) => (.ok { description := d, profile := f.profile }, log ++ [f.detection])

def ofDescription (p : Path) (bytes : List UInt8) (names : Option (List String)) : Loaded Input :=
  match Description.ofBytes p bytes with
  | (.error fault, log) => (.error fault, log)
  | (.ok d, log) =>
    match names with
    | none => (.ok { description := d, profile := d.profile }, log)
    | some names =>
      let notes := (d.missing names).map fun name =>
        LogLine.warning s!"Aggregate {name} not found in {p.text}"
      (.ok { description := d.select names, profile := d.profile }, log ++ notes)

def load (opener : ObjectFile.Opener) (t : FileTree) (p : Path) (names : Option (List String)) :
    Loaded Input :=
  match t.read p with
  | .error fault => (.error (.file fault), [])
  | .ok bytes =>
    if ObjectFile.hasMagic bytes then ofObjectFile opener p bytes names
    else ofDescription p bytes names

end Input

end AggregateLayout
