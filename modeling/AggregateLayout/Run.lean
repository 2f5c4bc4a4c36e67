import AggregateLayout.CommandLine.Reader
import AggregateLayout.Input
import AggregateLayout.Run.Summary
import AggregateLayout.Settings.Tuning

/-!
A run: from the command line, the environment and the files to the reports, the log and the exit
code.
-/

namespace AggregateLayout

inductive Breakdown where
  | file (fault : FileFault)
  | input (fault : InputFault)
  | number (fault : NumberFault)
  | unencodable (fault : Text.Utf8.EncodeFault)
  | blank (option : CommandOption)

def Breakdown.message : Breakdown → String
  | .file fault => fault.message
  | .input fault => fault.message
  | .number fault => fault.message
  | .unencodable fault => fault.message
  | .blank option => CommandLine.blankMessage option

inductive Ending where
  | exit (code : Nat)
  | broken (cause : Breakdown)

structure Session where
  tree : FileTree
  output : String := ""
  log : List LogLine := []
  logFile : Option Path := none
  verbose : Bool := false

namespace Session

def start (t : FileTree) (s : Settings) : Session := { tree := t, verbose := s.verbose }

def level (s : Session) : LogLevel := if s.verbose then .debug else .info

def logText (s : Session) (level : LogLevel) (seconds : String) : String :=
  String.join ((s.log.filter (·.isAtLeast level)).map fun l => l.render seconds ++ "\n")

end Session

namespace Run

abbrev Step := ExceptT Ending (StateM Session)

def say (lines : List LogLine) : Step Unit :=
  modify fun s => { s with log := s.log ++ lines }

/-- Standard output is taken to have an encoding for every text. -/
def print (text : String) : Step Unit :=
  modify fun s => { s with output := s.output ++ text }

def exit {α : Type} (code : Nat) : Step α := throw (.exit code)

def breakOff {α : Type} (cause : Breakdown) : Step α := throw (.broken cause)

def change (f : FileTree → FileTree × Option FileFault) : Step Unit := do
  let (tree, fault) := f (← get).tree
  modify fun s => { s with tree }
  if let some fault := fault then breakOff (.file fault)

def writeBytes (p : Path) (bytes : List UInt8) : Step Unit :=
  change fun t =>
    match t.write p bytes with
    | .ok t => (t, none)
    | .error fault => (t, some fault)

def writeFile (p : Path) (text : String) : Step Unit := do
  match Text.Utf8.fault? text with
  | none => writeBytes p (Text.Utf8.bytes text)
  | some fault =>
    writeBytes p []
    breakOff (.unencodable fault)

def isReported : InputFault → Bool
  | .file _ | .encoding _ | .number _ | .noDebugInfo _ => true
  | .description (.malformed _) => true
  | .depth _ | .description _ | .objectFile _ | .notOpen => false
  | .conversion (.type _) => true
  | .conversion _ => false

def cannotLoad {α : Type} (p : Path) (reason : String) : Step α := do
  say [.error s!"Cannot load {p.text}: {reason}"]
  exit 1

def profileFor (s : Settings) (defaultName : String) (i : Input) :
    Except String (MachineProfile Quantity) :=
  let named (name : String) : Except String (MachineProfile Quantity) :=
    match MachineProfile.named? name with
    | some p => .ok p
    | none => .error (MachineProfile.unknownMessage name)
  match s.profileName.filter (!·.isEmpty), i.profile with
  | some name, _ => named name
  | none, some p => .ok p
  | none, none => named defaultName

def loadInput (opener : ObjectFile.Opener) (s : Settings) (tuning : Tuning) (p : Path)
    (names : Option (List String)) : Step (Description × MachineProfile Quantity) := do
  let (result, log) := Input.load opener (← get).tree p names
  say log
  match result with
  | .error fault =>
    if isReported fault then cannotLoad p fault.message else breakOff (.input fault)
  | .ok i =>
    match profileFor s tuning.defaultProfile i with
    | .error reason => cannotLoad p reason
    | .ok profile =>
      say [.info s!"Using machine profile {profile.name}"]
      return (i.description, profile)

def batchOptions (s : Settings) (tuning : Tuning) : BatchOptions :=
  let base := tuning.batchOptions
  { base with
    repack := s.repack
    rules := { preserveGroups := s.preserveGroups, cacheLineHint := s.cacheLineHint }
    checkUnions := s.checkUnions || base.checkUnions
    workers := s.workers.getD base.workers }

def isDocumentFormat (s : Settings) : Bool := s.format == "json"

def extension (s : Settings) : String := if isDocumentFormat s then "json" else "txt"

def reportFile (s : Settings) (directory : Path) (o : Outcome) : Path :=
  directory.join (o.file (extension s))

def reportText (s : Settings) (r : Report) : String :=
  if isDocumentFormat s then r.document.lines else r.text ++ "\n"

def writeReport (s : Settings) (directory : Path) (o : Outcome) : Step Unit :=
  match o.report? with
  | none => return ()
  | some r => do
    let file := reportFile s directory o
    writeFile file (reportText s r)
    say [.info s!"[SUCCESS] Generated: {file.text}"]

def writeReports (s : Settings) (c : CommandLine) (outcomes : Outcomes) : Step Unit := do
  if c.blank.contains .output then breakOff (.blank .output)
  match s.outputDirectory with
  | none => print (if isDocumentFormat s then outcomes.documentText else outcomes.text)
  | some directory =>
    change fun t => s.makeOutputDirectory t
    outcomes.forM (writeReport s directory)

def process (s : Settings) (tuning : Tuning) (d : Description) (p : MachineProfile Quantity) :
    Step Outcomes := do
  let (result, log) := Batch.process (d.catalog p) (batchOptions s tuning) d.aggregates
  say log
  match result with
  | .ok outcomes => return outcomes ++ Outcome.ofRejected d
  | .error fault => breakOff (.number fault)

def conclude (s : Settings) (c : CommandLine) (recorded : Table DebugInfo.AttributeValue)
    (outcomes : Outcomes) : Step Unit := do
  say (outcomes.filterMap (Outcome.sizeWarning? recorded))
  writeReports s c outcomes
  say (outcomes.summary s.repack)
  exit (if outcomes.failed == 0 then 0 else 1)

def body (opener : ObjectFile.Opener) (s : Settings) (tuning : Tuning) (c : CommandLine)
    (input : Path) : Step Unit := do
  let (d, p) ← loadInput opener s tuning input c.names?
  if d.aggregates.isEmpty && d.rejected.isEmpty then
    say [.error "No aggregates to process"]
    exit 1
  let outcomes ← process s tuning d p
  conclude s c d.reportedSizes outcomes

def logFileIn (directory : Path) (time : String) : Path :=
  directory.join { names := [s!"struct_packer_{time}.log"] }

def openLog (t : FileTree) (s : Settings) (c : CommandLine) (time : String) :
    Except Breakdown Session := do
  let session := Session.start t s
  if c.blank.contains .logDirectory then throw (.blank .logDirectory)
  match s.logDirectory with
  | none => return session
  | some directory =>
    let file := logFileIn directory time
    match t.makeDirectories directory with
    | (_, some fault) => throw (.file fault)
    | (t, none) =>
      let tree ← (t.write file []).mapError .file
      return { session with tree, logFile := some file }

end Run

structure RunResult where
  ending : Ending
  complaint : String := ""
  session : Option Session := none

namespace Run

def variableNames : List String := ["STRUCT_PACKER_INPUT", "STRUCT_PACKER_OUTPUT_DIR",
  "STRUCT_PACKER_LOG_DIR", "STRUCT_PACKER_WORKERS", "STRUCT_PACKER_PROFILE",
  "STRUCT_PACKER_REPACK", "STRUCT_PACKER_FORMAT", "VERBOSE", "LAYOUT_DEFAULT_PROFILE",
  "LAYOUT_MAX_NESTING_DEPTH", "LAYOUT_BATCH_WORKERS", "LAYOUT_WASTE_WARNING_PERCENT",
  "LAYOUT_CHECK_UNIONS"]

def settingsFor (t : FileTree) (env : Environment) (c : CommandLine) :
    Except Settings.LoadFault (Settings × Environment) := do
  let env ← Settings.environmentWith t Settings.defaultFile env
  let s ← (Settings.ofEnvironment env).mapError .settings
  let s := s.withRequests c.requests
  return ({ s with logDirectory := c.logDirectory.or s.logDirectory }, env)

inductive Refusal where
  | settings (fault : SettingsFault)
  | broken (cause : Breakdown)

def Refusal.ofLoadFault : Settings.LoadFault → Refusal
  | .settings fault => .settings fault
  | .file fault => .broken (.file fault)

def configure (t : FileTree) (env : Environment) (c : CommandLine) :
    Except Refusal (Settings × Environment) := do
  let (s, env) ← (settingsFor t env c).mapError .ofLoadFault
  if c.blank.contains .format then throw (.broken (.blank .format))
  (Settings.checkInput t s).mapError .ofLoadFault
  if c.blank.contains .workers then throw (.broken (.blank .workers))
  (Settings.validate t s).mapError .ofLoadFault
  return (s, env)

def paths (t : FileTree) (env : Environment) (arguments : List String) : List Path :=
  match CommandLine.read arguments with
  | .error _ => []
  | .ok c =>
    match settingsFor t env c with
    | .error _ => []
    | .ok (s, _) => s.input.toList ++ s.outputDirectory.toList ++ s.logDirectory.toList

def withSettings (opener : ObjectFile.Opener) (time : String) (t : FileTree) (env : Environment)
    (s : Settings) (c : CommandLine) : RunResult :=
  match openLog t s c time with
  | .error cause => { ending := .broken cause }
  | .ok session =>
    let input := s.input.getD { names := [] }
    match (body opener s (.ofEnvironment env) c input).run session with
    | (.ok (), session) => { ending := .exit 0, session }
    | (.error ending, session) => { ending, session }

end Run

def run (opener : ObjectFile.Opener) (time : String) (t : FileTree) (env : Environment)
    (arguments : List String) : RunResult :=
  match CommandLine.read arguments with
  | .error .help => { ending := .exit 0 }
  | .error (.usage fault) =>
    { ending := .exit 2, complaint := s!"{CommandLine.programName}: error: {fault.message}\n" }
  | .ok c =>
    match Run.configure t env c with
    | .error (.broken cause) => { ending := .broken cause }
    | .error (.settings fault) =>
      { ending := .exit 1, complaint := s!"Configuration error: {fault.message}\n" }
    | .ok (s, env) => Run.withSettings opener time t env s c

end AggregateLayout
