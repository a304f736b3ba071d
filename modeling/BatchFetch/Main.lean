import BatchFetch.CommandLine.Reader
import BatchFetch.CommandLine.Usage
import BatchFetch.Session.Survey

namespace BatchFetch.Program

def refuse (refusal : Refusal) : IO UInt32 := do
  IO.print refusal.answer
  if let some complaint := refusal.complaint? then
    IO.eprintln s!"error: {complaint}\n\n{usage}"
  return refusal.exitCode.toUInt32

/-- Take what is at a path into a file system; the directory must be there. -/
def takePath (files : FileSystem) (path : String) : IO FileSystem := do
  match files.locate path with
  | .ok (.missing place _) =>
    match ← (IO.FS.readBinFile path).toBaseIO with
    | .ok content => return files.put place (.file content.toList)
    | .error (.inappropriateType ..) => return files.put place .dir
    | .error _ => return files
  | _ => return files

/-- Take what is at paths, and the directories that lead there, into a file system. -/
def takePaths (files : FileSystem) (paths : List String) : IO FileSystem :=
  paths.foldlM (fun files path =>
    (FileSystem.ancestors path.length path).reverse.foldlM takePath files) files

/-- A file system that holds the current directory only. -/
def currentFiles : IO FileSystem := do
  let path := (← IO.currentDir).toString
  let current := (Path.pieces path).filter fun name => !Path.isIdle name
  let empty : FileSystem := { current }
  return (List.range current.length).foldl
    (fun files n => files.put (current.take (n + 1)) .dir) empty

/-- The directory for configurations. -/
def configHome : IO String := do
  let configured := (← IO.getEnv "XDG_CONFIG_HOME").filter Path.isAbsolute
  let user := (← IO.getEnv "HOME").getD "/"
  return configured.getD (Path.join user ".config")

partial def readAll (input : IO.FS.Stream) (seen : Bytes) : IO Bytes := do
  let chunk ← input.read 65536
  if chunk.isEmpty then return seen else readAll input (seen ++ chunk.toList)

/-- Store what a session has changed. -/
def storeChanges (before after : FileSystem) : IO Unit := do
  for (place, node) in after.nodes do
    if before.node? place != some node then
      let path := "/" ++ "/".intercalate place
      match node with
      | .dir => IO.FS.createDirAll path
      | .file content => IO.FS.writeBinFile path ⟨content.toArray⟩

def carryOut (arguments : Arguments) : IO UInt32 := do
  let home ← configHome
  let named ← takePaths (← currentFiles) (Session.namedPaths arguments home)
  let stdin ←
    if arguments.inputFiles.contains .stdin then readAll (← IO.getStdin) [] else pure []
  let around : Surroundings :=
    { files := named, stdin, get := ({ connected := false } : Web).get, configHome := home,
      logRules := ← IO.getEnv "RUST_LOG" }
  let files ← takePaths named (Session.destinations arguments around)
  let around := { around with files }
  let some finished := Session.run arguments around | return 1
  IO.print finished.world.out.text
  for line in Session.screen arguments around finished do
    IO.eprintln line
  storeChanges files finished.world.files
  return finished.exitCode.toUInt32

end BatchFetch.Program

def main (words : List String) : IO UInt32 := do
  match BatchFetch.CommandLine.parse words with
  | .error refusal => BatchFetch.Program.refuse refusal
  | .ok arguments => BatchFetch.Program.carryOut arguments
