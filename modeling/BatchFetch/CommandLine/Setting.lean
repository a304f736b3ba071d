import BatchFetch.Json.Reader
import BatchFetch.Store.Basic
import BatchFetch.Text.Blank

namespace BatchFetch

inductive SettingProblem where
  | noEquals (text : String)
  | noName
  deriving DecidableEq, Repr, Inhabited

def SettingProblem.message : SettingProblem → String
  | noEquals text => s!"expected OPT=VALUE, got '{text}'"
  | noName => "option name must not be empty"

namespace Setting

/-- The section and the key of a name, which are parted by its last dot. -/
def splitName (name : List Char) : String × String :=
  match Text.cutLast levelSeparator name with
  | some (sectionName, key) => (String.ofList sectionName, String.ofList key)
  | none => (globalSection, String.ofList name)

/-- The JSON value that a text writes, or else the text. -/
def valueOf (text : String) : Json :=
  (Json.parse text).toOption.getD (.str text)

def parse (text : String) : Except SettingProblem Setting :=
  match Text.cutFirst '=' text.toList with
  | none => .error (.noEquals text)
  | some (before, value) =>
    let name := Text.trim before
    if name.isEmpty then .error .noName
    else
      let (sectionName, key) := splitName name
      .ok ⟨sectionName, key, valueOf (String.ofList value)⟩

end Setting
end BatchFetch
