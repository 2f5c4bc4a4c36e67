import AggregateLayout.Environment.File
import AggregateLayout.FileTree
import AggregateLayout.Decimal.Numeral

namespace AggregateLayout

inductive SettingsFault where
  | noInput
  | inputMissing (path : Path)
  | inputNotFile (path : Path)
  | workersNotWhole (text : String)
  | tooFewWorkers (workers : Int)
  | unknownFormat (name : String)
  | encoding (fault : Text.Utf8.Fault)
  | variable (fault : VariableFault)

def reportFormats : List String := ["text", "json"]

def SettingsFault.message : SettingsFault → String
  | .noInput => "No input file given (argument or STRUCT_PACKER_INPUT)"
  | .inputMissing p => s!"Input file not found: {p.text}"
  | .inputNotFile p => s!"Not a file: {p.text}"
  | .workersNotWhole text => s!"STRUCT_PACKER_WORKERS must be an integer, got '{text}'"
  | .tooFewWorkers workers => s!"Worker count must be at least 1, got {workers}"
  | .unknownFormat name =>
    s!"Unknown output format '{name}' (expected one of: " ++ ", ".intercalate reportFormats ++ ")"
  | .encoding fault => fault.message
  | .variable fault => fault.message

structure Settings where
  input : Option Path := none
  outputDirectory : Option Path := none
  profileName : Option String := none
  verbose : Bool := false
  logDirectory : Option Path := none
  workers : Option Int := none
  repack : Bool := false
  preserveGroups : Bool := false
  cacheLineHint : Bool := false
  checkUnions : Bool := false
  format : String := "text"

structure Requests where
  input : Option Path := none
  outputDirectory : Option Path := none
  profileName : Option String := none
  verbose : Bool := false
  workers : Option Int := none
  repack : Bool := false
  preserveGroups : Bool := false
  cacheLineHint : Bool := false
  checkUnions : Bool := false
  format : Option String := none

namespace Settings

def workersOf (env : Environment) : Except SettingsFault (Option Int) :=
  match env.setting? "STRUCT_PACKER_WORKERS" with
  | none => .ok none
  | some text =>
    match Decimal.readInt text with
    | .ok n => .ok (some n)
    | .error _ => .error (.workersNotWhole text)

def ofEnvironment (env : Environment) : Except SettingsFault Settings := do
  let path? (name : String) : Option Path := (env.setting? name).map Path.ofText
  return {
    input := path? "STRUCT_PACKER_INPUT"
    outputDirectory := path? "STRUCT_PACKER_OUTPUT_DIR"
    profileName := env.setting? "STRUCT_PACKER_PROFILE"
    verbose := env.isOn "VERBOSE"
    logDirectory := path? "STRUCT_PACKER_LOG_DIR"
    workers := ← workersOf env
    repack := env.isOn "STRUCT_PACKER_REPACK"
    format := Text.lower (Text.trim ((env.value? "STRUCT_PACKER_FORMAT").getD "text")) }

def withRequests (s : Settings) (r : Requests) : Settings :=
  let preserveGroups := s.preserveGroups || r.preserveGroups
  let cacheLineHint := s.cacheLineHint || r.cacheLineHint
  { s with
    input := r.input.or s.input
    outputDirectory := r.outputDirectory.or s.outputDirectory
    profileName := r.profileName.or s.profileName
    verbose := s.verbose || r.verbose
    workers := r.workers.or s.workers
    repack := s.repack || r.repack || preserveGroups || cacheLineHint
    preserveGroups
    cacheLineHint
    checkUnions := s.checkUnions || r.checkUnions
    format := (r.format.map Text.lower).getD s.format }

inductive LoadFault where
  | settings (fault : SettingsFault)
  | file (fault : FileFault)

def environmentWith (t : FileTree) (file : Path) (env : Environment) :
    Except LoadFault Environment := do
  match ← (t.look file).mapError .file with
  | some (.file bytes) =>
    let text ← (Text.Utf8.decodeLines bytes).mapError (.settings ∘ .encoding)
    (env.withFile (Text.ofChars text)).mapError (.settings ∘ .variable)
  | _ => return env

def defaultFile : Path := { names := [".env"] }

def checkInput (t : FileTree) (s : Settings) : Except LoadFault Unit := do
  let fail (fault : SettingsFault) : Except LoadFault Unit := .error (.settings fault)
  match s.input with
  | none => fail .noInput
  | some p =>
    match ← (t.look p).mapError .file with
    | none => fail (.inputMissing p)
    | some .directory => fail (.inputNotFile p)
    | some (.file _) => return ()

def validate (t : FileTree) (s : Settings) : Except LoadFault Unit := do
  let fail (fault : SettingsFault) : Except LoadFault Unit := .error (.settings fault)
  checkInput t s
  if let some workers := s.workers then
    if workers < 1 then fail (.tooFewWorkers workers)
  if !reportFormats.contains s.format then fail (.unknownFormat s.format)

def makeOutputDirectory (t : FileTree) (s : Settings) : FileTree × Option FileFault :=
  match s.outputDirectory with
  | some p => t.makeDirectories p
  | none => (t, none)

end Settings

end AggregateLayout
