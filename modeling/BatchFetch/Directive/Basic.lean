import BatchFetch.Store.Basic
import BatchFetch.Json.Reader
import BatchFetch.Json.Printer
import BatchFetch.Text.Blank
import BatchFetch.Text.Cut

namespace BatchFetch

/-- How long a directive stays in effect. -/
inductive Scope where
  | global
  | oneTarget
  deriving DecidableEq, Repr, Inhabited

/-- A setting with the scope of its effect. -/
structure Directive extends Setting where
  scope : Scope
  deriving DecidableEq, Inhabited

/-- Why a line is no directive. -/
inductive Malformed where
  /-- There is no `=`; `text` is what follows the dash. -/
  | notPair (text : String)
  | notJson (value message : String)
  deriving DecidableEq, Inhabited

/-- A malformed line and its number, counted from one. -/
structure Warning where
  line : Nat
  problem : Malformed
  deriving DecidableEq, Inhabited

def Warning.message (warning : Warning) : String :=
  let line := warning.line
  match warning.problem with
  | .notPair text => s!"line {line}: invalid <key>=<value> pair: {text}"
  | .notJson value message => s!"line {line}: unable to parse '{value}': {message}"

namespace Directive

/-- The section and the key of a trimmed name, which are parted by its last colon. -/
def splitName (name : List Char) : String × String :=
  match Text.cutLast ':' name with
  | some (sectionName, key) => (String.ofList sectionName, String.ofList key)
  | none => (globalSection, String.ofList name)

/-- Read a directive without its dash: a name up to the first `=`, and a JSON value. -/
def parseBody (scope : Scope) (body : List Char) : Except Malformed Directive :=
  match Text.cutFirst '=' body with
  | none => .error (.notPair (String.ofList body))
  | some (name, value) =>
    let text := String.ofList (Text.trim value)
    match Json.parse text with
    | .error message => .error (.notJson text message)
    | .ok value =>
      let (sectionName, key) := splitName (Text.trim name)
      .ok ⟨⟨sectionName, key, value⟩, scope⟩

/-- The scope that a line announces, and what follows its dash. -/
def scopeOf : List Char → Scope × List Char
  | '-' :: 'G' :: body => (.global, body)
  | '-' :: body => (.oneTarget, body)
  | body => (.oneTarget, body)

def parse (line : List Char) : Except Malformed Directive :=
  let (scope, body) := scopeOf line
  parseBody scope body

/-- What stands in front of the name. -/
def lead : Scope → String
  | .global => "-G "
  | .oneTarget => "-"

/-- The line that a directive is written as. -/
def text (d : Directive) : String :=
  let name := if d.sectionName = globalSection then d.key else d.sectionName ++ ":" ++ d.key
  lead d.scope ++ name ++ "=" ++ d.value.render

end Directive
end BatchFetch
