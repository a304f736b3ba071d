import BatchFetch.Session.Run

namespace BatchFetch

/-- The files among entries. -/
def Entry.files (entries : List Entry) : List Url :=
  entries.filterMap fun
    | .file url => some url
    | .queue _ => none

namespace Session

/-- The workshop that notes where the files of a target would be stored. -/
def surveyor (registry : Registry) (get : Url → Exchange) : Workshop (List String) where
  run target store paths :=
    match registry.findFor? target with
    | none => (.notFound, [], paths)
    | some (url, handler) =>
      let settings := (DownloadSettings.ofStore store handler.name).1
      let found := Entry.files (handler.resolveBy registry.naming get url).entries
      (.completed .success, [], paths ++ found.map settings.destination)

/-- The paths that are known from the command line. -/
def namedPaths (arguments : Arguments) (configHome : String) : List String :=
  Store.defaultPaths configHome ++ arguments.configFiles ++
    arguments.inputFiles.filterMap (fun
      | .file path => some path
      | .stdin => none) ++
    arguments.writeUnsupported.toList

/-- The paths where files of the batch would be stored, once the named files are there. -/
def destinations (arguments : Arguments) (around : Surroundings) : List String :=
  match (loadStore arguments around.files around.configHome).1 with
  | .error _ => []
  | .ok store =>
    let (items, _) := collect arguments around
    ((surveyor around.registry around.get).dispatch items store []).state

end Session
end BatchFetch
