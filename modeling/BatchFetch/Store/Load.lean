import BatchFetch.Log
import BatchFetch.Store.Document
import BatchFetch.Store.Format

namespace BatchFetch.Store

/-- Merge a document and count the values written. -/
def loadDocument (store : Store) (document : Json) : Except ConfigError (Store × Nat) :=
  (store.mergeDocument document).mapError .invalidRoot

/-- Load a text in some format. -/
def loadText (store : Store) (text : String) (format : ConfigFormat)
    (readers : DocumentReaders := .standard) : Except ConfigError (Store × Nat) :=
  (format.parse text readers).bind store.loadDocument

/-- The text of a configuration file. -/
def readConfig (files : FileSystem) (path : String) : Except ConfigError String :=
  match files.readText path with
  | .ok text => .ok text
  | .error .notFound => .error (.notFound path)
  | .error cause => .error (.io path cause)

def loadFile (store : Store) (files : FileSystem) (path : String)
    (readers : DocumentReaders := .standard) : Except ConfigError (Store × Nat) :=
  match ConfigFormat.ofPath path with
  | .error e => .error e
  | .ok format => (readConfig files path).bind fun text => store.loadText text format readers

/-- The names of the default configuration files, in the order in which they are loaded. -/
def defaultNames : List String := ["config.json", "config.yaml", "config.toml"]

/-- The paths of the default configuration files in the directory for configurations. -/
def defaultPaths (configHome : String) : List String :=
  defaultNames.map (Path.join (Path.join configHome programName))

/-- The store after default files, those that were loaded, and the events. -/
structure Defaults where
  store : Store
  loaded : List String := []
  events : List Event := []
  deriving DecidableEq, Inhabited

/-- Load a default file if it is there. A file that cannot be loaded is passed over. -/
def loadDefault (readers : DocumentReaders) (files : FileSystem) (defaults : Defaults)
    (path : String) : Defaults :=
  if files.pathExists path then
    match defaults.store.loadFile files path readers with
    | .ok (store, _) => { defaults with store, loaded := defaults.loaded ++ [path] }
    | .error e =>
      let event := Event.warn s!"Skipping configuration file: {e.message}"
      { defaults with events := defaults.events ++ [event] }
  else defaults

def loadDefaults (store : Store) (files : FileSystem) (configHome : String)
    (readers : DocumentReaders := .standard) : Defaults :=
  (defaultPaths configHome).foldl (loadDefault readers files) { store }

end BatchFetch.Store
