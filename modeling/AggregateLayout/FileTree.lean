import AggregateLayout.Path
import AggregateLayout.Table
import AggregateLayout.Text.Code
import AggregateLayout.Text.Utf8.Encode

namespace AggregateLayout

inductive FileNode where
  | file (bytes : List UInt8)
  | directory
  deriving DecidableEq

inductive FileFault where
  | missing (path : String)
  | taken (path : String)
  | notDirectory (path : String)
  | directory (path : String)
  | nameTooLong (path : String)
  | nullCharacter
  | unencodable (fault : Text.Utf8.EncodeFault)
  deriving DecidableEq

def FileFault.message : FileFault → String
  | .missing path => s!"[Errno 2] No such file or directory: {Text.quoted path}"
  | .taken path => s!"[Errno 17] File exists: {Text.quoted path}"
  | .notDirectory path => s!"[Errno 20] Not a directory: {Text.quoted path}"
  | .directory path => s!"[Errno 21] Is a directory: {Text.quoted path}"
  | .nameTooLong path => s!"[Errno 36] File name too long: {Text.quoted path}"
  | .nullCharacter => "embedded null byte"
  | .unencodable fault => fault.message

/-- The working directory is a directory, and so are those above it and the root. What else they
hold is in the tree as far as it matters. -/
structure FileTree where
  nodes : Table FileNode := []

namespace FileTree

abbrev Place := List String

def maxName : Nat := 255

def maxPath : Nat := 4095

def key (here : Place) : String := "/".intercalate here.reverse

def isAbove (here : Place) : Bool := here.all (· == "..") || here == ["/"]

def node? (t : FileTree) (here : Place) : Option FileNode :=
  if isAbove here then some .directory else Table.find? (key here) t.nodes

def enter (here : Place) (name : String) : Place :=
  if name != ".." || here.head? == some ".." then name :: here
  else if here == ["/"] then here
  else if here.isEmpty then [".."]
  else here.tail

def walk (t : FileTree) (shown : String) (here : Place) : List String → Except FileFault Place
  | [] => .ok here
  | name :: rest =>
    match t.node? here with
    | none => .error (.missing shown)
    | some (.file _) => .error (.notDirectory shown)
    | some .directory =>
      let bytes := Text.Utf8.bytes name
      if bytes.length > maxName then .error (.nameTooLong shown)
      else t.walk shown (enter here (Text.Utf8.name bytes)) rest

def findAs (t : FileTree) (shown : String) (p : Path) : Except FileFault Place :=
  let bytes := Text.Utf8.bytes shown
  match Text.Utf8.nameFault? shown with
  | some fault => .error (.unencodable fault)
  | none =>
    if bytes.contains 0 then .error .nullCharacter
    else if bytes.length > maxPath then .error (.nameTooLong shown)
    else t.walk shown (if p.root.isEmpty then [] else ["/"]) p.names

def find (t : FileTree) (p : Path) : Except FileFault Place := t.findAs p.text p

def look (t : FileTree) (p : Path) : Except FileFault (Option FileNode) :=
  match t.find p with
  | .ok here => .ok (t.node? here)
  | .error (.nameTooLong path) => .error (.nameTooLong path)
  | .error _ => .ok none

def put (t : FileTree) (here : Place) (node : FileNode) : FileTree :=
  { t with nodes := t.nodes.insert (key here) node }

def readFrom (t : FileTree) (shown : String) (here : Place) : Except FileFault (List UInt8) :=
  match t.node? here with
  | none => .error (.missing shown)
  | some .directory => .error (.directory shown)
  | some (.file bytes) => .ok bytes

def read (t : FileTree) (p : Path) : Except FileFault (List UInt8) := do
  t.readFrom p.text (← t.find p)

def readAt (t : FileTree) (shown : String) : Except FileFault (List UInt8) := do
  if shown.isEmpty then throw (.missing shown)
  let bytes ← t.readFrom shown (← t.findAs shown (Path.ofText shown))
  if Path.isOfDirectory shown then throw (.notDirectory shown) else return bytes

def write (t : FileTree) (p : Path) (bytes : List UInt8) : Except FileFault FileTree := do
  let here ← t.find p
  match t.node? here with
  | some .directory => throw (.directory p.text)
  | _ => return t.put here (.file bytes)

def isDirectory (t : FileTree) (p : Path) : Except FileFault Bool :=
  (t.look p).map (· == some .directory)

def makeDirectory (t : FileTree) (p : Path) : Except FileFault FileTree :=
  let made : Except FileFault FileTree := do
    let here ← t.find p
    match t.node? here with
    | some _ => throw (.taken p.text)
    | none => return t.put here .directory
  match made with
  | .ok t => .ok t
  | .error (.missing path) => .error (.missing path)
  | .error .nullCharacter => .error .nullCharacter
  | .error (.unencodable fault) => .error (.unencodable fault)
  | .error fault => do
    if ← t.isDirectory p then return t else throw fault

def makeDirectoriesTo (t : FileTree) (root : String) : List String → FileTree × Option FileFault
  | [] => (t, none)
  | name :: before =>
    let make (t : FileTree) : Except FileFault FileTree :=
      t.makeDirectory { root, names := (name :: before).reverse }
    match make t with
    | .ok t => (t, none)
    | .error (.missing _) =>
      match t.makeDirectoriesTo root before with
      | (t, some fault) => (t, some fault)
      | (t, none) =>
        match make t with
        | .ok t => (t, none)
        | .error fault => (t, some fault)
    | .error fault => (t, some fault)

def makeDirectories (t : FileTree) (p : Path) : FileTree × Option FileFault :=
  t.makeDirectoriesTo p.root p.names.reverse

def isBelow (key : String) : Bool :=
  match key.toList with
  | '/' :: _ => false
  | '.' :: '.' :: rest => !rest.isEmpty && rest.head? != some '/'
  | _ => true

def directories (t : FileTree) : List String :=
  Text.sortNames
    (Table.keys (t.nodes.filter fun (key, node) => isBelow key && node == .directory))

def keyCodes (key : String) : List (List Nat) := (Path.ofText key).names.map Text.codes

def changesSince (t before : FileTree) : List (String × FileNode) :=
  (t.nodes.filter fun (key, node) => Table.find? key before.nodes != some node).mergeSort
    fun (a, _) (b, _) => !(keyCodes b < keyCodes a)

end FileTree

end AggregateLayout
