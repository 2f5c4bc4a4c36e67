import AggregateLayout.Run

namespace AggregateLayout.Main

def taken (s : String) : String := Text.ofChars s.toList

def given (s : String) : String := String.ofList (Text.Utf8.decodeLossy (Text.Utf8.bytes s))

def nodeAt? (path : String) : IO (Option FileNode) := do
  try
    let bytes ← IO.FS.readBinFile path
    return some (.file bytes.toList)
  catch
    | .inappropriateType .. => return some .directory
    | _ => return none

def survey (t : FileTree) (p : Path) : IO FileTree :=
  (List.range p.names.length).foldlM (fun t count => do
    let part : Path := { p with names := p.names.take (count + 1) }
    match t.find part, ← nodeAt? (given part.text) with
    | .ok here, some node => return t.put here node
    | _, _ => return t) t

def environment : IO Environment := do
  let values ← Run.variableNames.mapM fun name => do return (name, ← IO.getEnv name)
  return values.filterMap fun (name, value) => value.map fun value => (name, taken value)

def carryOut (before after : FileTree) : IO Unit := do
  let changes := after.changesSince before
  for (key, node) in changes do
    if node == .directory then IO.FS.createDirAll (given key)
  for (key, node) in changes do
    if let .file bytes := node then IO.FS.writeBinFile (given key) (ByteArray.mk bytes.toArray)

def finish (before : FileTree) (s : Session) : IO Unit := do
  carryOut before s.tree
  if let some file := s.logFile then
    IO.FS.writeFile (given file.text) (given (s.logText .debug "0.000"))
  IO.eprint (given (s.logText s.level "0.000"))
  IO.print (given s.output)

def program (opener : ObjectFile.Opener) (arguments : List String) : IO UInt32 := do
  let arguments := arguments.map taken
  let env ← environment
  let t ← survey {} Settings.defaultFile
  let t ← (Run.paths t env arguments).foldlM survey t
  let result := run opener (toString (← IO.monoMsNow)) t env arguments
  IO.eprint (given result.complaint)
  if let some s := result.session then finish t s
  match result.ending with
  | .exit code => return UInt32.ofNat code
  | .broken cause =>
    IO.eprintln (given cause.message)
    return 1

end AggregateLayout.Main
