import BatchFetch.CommandLine.Basic
import BatchFetch.ErrorChain
import BatchFetch.Store.Load

namespace BatchFetch

/-- The chain of an error while loading a configuration. -/
def ConfigError.chain (e : ConfigError) : ErrorChain :=
  match e with
  | .io _ cause => [.text e.message, .io cause]
  | e => [.text e.message]

namespace Arguments

/-- The file name template that a text stands for: one text asks for the name that the
server uses. -/
def filenameTemplate (text : String) : String :=
  if text = "/O" then "\x7bfilename\x7d.\x7bextension\x7d" else text

/-- A global setting with a text as its value. -/
def globalText (key value : String) : Setting :=
  ⟨globalSection, key, .str value⟩

/-- The settings that the command line makes, in the order in which they are written. -/
def overrides (arguments : Arguments) : List Setting :=
  (arguments.destination.map (globalText "base-directory")).toList ++
    (arguments.filename.map fun text => globalText "filename" (filenameTemplate text)).toList ++
    (arguments.abort.map fun n => globalText "skip" s!"abort:{n}").toList ++
    (arguments.terminate.map fun n => globalText "skip" s!"terminate:{n}").toList ++
    arguments.settings

end Arguments

namespace Session

/-- Load the named files in order, up to the first that cannot be loaded. -/
def loadNamed (readers : DocumentReaders) (files : FileSystem) (store : Store) :
    List String → Except ErrorChain Store
  | [] => .ok store
  | path :: rest =>
    match store.loadFile files path readers with
    | .ok (store, _) => loadNamed readers files store rest
    | .error e =>
      .error (ErrorChain.inContext s!"failed to load configuration file {path}" e.chain)

/-- The store after the default files, unless they are to be ignored. -/
def defaults (arguments : Arguments) (files : FileSystem) (configHome : String)
    (readers : DocumentReaders := .standard) : Store.Defaults :=
  if arguments.ignoreConfig then { store := .empty }
  else Store.empty.loadDefaults files configHome readers

/-- The configuration that a command line asks for, and the events of loading it. -/
def loadStore (arguments : Arguments) (files : FileSystem) (configHome : String)
    (readers : DocumentReaders := .standard) : Except ErrorChain Store × List Event :=
  let found := defaults arguments files configHome readers
  let named := loadNamed readers files found.store arguments.configFiles
  (named.map (·.setAll arguments.overrides), found.events)

end Session
end BatchFetch
