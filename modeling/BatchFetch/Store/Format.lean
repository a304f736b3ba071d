import BatchFetch.Files.System
import BatchFetch.Json.Reader
import BatchFetch.Toml.Reader
import BatchFetch.Yaml.Value

namespace BatchFetch

inductive ConfigFormat where
  | json | yaml | toml
  deriving DecidableEq, Repr, Inhabited

inductive ConfigError where
  | notFound (path : String)
  | io (path : String) (cause : IoError)
  | unsupportedFormat (path : String)
  | parse (format : ConfigFormat) (message : String)
  /-- The root is neither a mapping nor null; its kind is given in words. -/
  | invalidRoot (kind : String)
  deriving DecidableEq, Repr, Inhabited

/-- Readers of YAML and TOML: from a text to a value, or to a message about what is wrong. -/
structure DocumentReaders where
  yaml : String → Except String Json
  toml : String → Except String Json

def DocumentReaders.standard : DocumentReaders where
  yaml text := (Yaml.parse text).mapError (·.message)
  toml text := (Toml.parse text).mapError (·.message)

namespace ConfigFormat

def name : ConfigFormat → String
  | json => "json"
  | yaml => "yaml"
  | toml => "toml"

/-- The format of a file; a name without an extension stands for JSON. -/
def ofPath (path : String) : Except ConfigError ConfigFormat :=
  match (Path.extension? path).map Text.asciiLower with
  | none | some "json" => .ok json
  | some "yaml" | some "yml" => .ok yaml
  | some "toml" => .ok toml
  | some _ => .error (.unsupportedFormat path)

/-- Read a document. What YAML and TOML are is left to their readers. -/
def parse (format : ConfigFormat) (text : String) (readers : DocumentReaders := .standard) :
    Except ConfigError Json :=
  match format with
  | json => (Json.parse text).mapError (.parse json)
  | yaml => (readers.yaml text).mapError (.parse yaml)
  | toml => (readers.toml text).mapError (.parse toml)

end ConfigFormat

def ConfigError.message : ConfigError → String
  | notFound path => s!"configuration file not found: {path}"
  | io path cause => s!"failed to read '{path}': {cause.message}"
  | unsupportedFormat path => s!"unsupported configuration format for '{path}'"
  | parse format message => s!"failed to parse {format.name} configuration: {message}"
  | invalidRoot kind => s!"configuration root must be a mapping, found {kind}"

end BatchFetch
