import BatchFetch.Directive.Basic
import BatchFetch.Json.Skip

namespace BatchFetch

namespace Directive.Record

/-- Why a text is no record: it is not JSON, or it is JSON of another shape. -/
inductive Fault where
  | text (fault : Json.Fault)
  | shape
  deriving DecidableEq

/-- The kinds of faults that callers tell apart. -/
inductive Category where
  | syntaxError | eof | data
  deriving DecidableEq, Repr

def Fault.category : Fault → Category
  | .shape => .data
  | .text fault => if fault.cause.isEof then .eof else .syntaxError

/-- A step of the JSON reader. -/
def lift {α : Type} (step : Except Json.Fault α) : Except Fault α :=
  step.mapError .text

def scopeName : Scope → String
  | .global => "global"
  | .oneTarget => "local"

def scopeOfName (name : String) : Except Fault Scope :=
  if name = "global" then .ok .global
  else if name = "local" then .ok .oneTarget
  else .error .shape

/-- The fault of a value that is not of the expected kind: literals are read to their end, as they
may be malformed themselves. -/
def unexpected (cs : List Char) : Fault :=
  let literalFault {α : Type} (step : Except Json.Fault α) : Fault :=
    match step with
    | .ok _ => .shape
    | .error fault => .text fault
  match cs with
  | 'n' :: rest => literalFault (Json.literal "ull".toList .null rest)
  | 't' :: rest => literalFault (Json.literal "rue".toList .null rest)
  | 'f' :: rest => literalFault (Json.literal "alse".toList .null rest)
  | '-' :: rest => literalFault (Json.number true rest)
  | '"' :: rest => literalFault (Json.string rest)
  | '[' :: _ | '\x7b' :: _ => .shape
  | c :: rest =>
    if Json.isDigit c then literalFault (Json.number false (c :: rest))
    else .text (Json.Fault.at .expectedValue (c :: rest))
  | [] => .text (Json.Fault.at .eofInValue [])

/-- A string and nothing else. -/
def stringMember (cs : List Char) : Except Fault (String × List Char) :=
  match Json.skipSpace cs with
  | '"' :: rest => lift (Json.string rest)
  | rest => .error (unexpected rest)

/-- The null payload of a scope that is written as an object. -/
def nullMember (cs : List Char) : Except Fault (List Char) :=
  match Json.skipSpace cs with
  | 'n' :: rest => (lift (Json.literal "ull".toList .null rest)).map (·.2)
  | rest => .error (unexpected rest)

/-- A scope: its name, or an object with its name as the only key. -/
def scopeMember (cs : List Char) : Except Fault (Scope × List Char) := do
  match Json.skipSpace cs with
  | [] => throw (.text (Json.Fault.at .eofInValue []))
  | '"' :: rest =>
    let (name, rest) ← lift (Json.string rest)
    return (← scopeOfName name, rest)
  | '\x7b' :: rest =>
    let (name, rest) ← stringMember rest
    let scope ← scopeOfName name
    let (_, rest) ← lift (Json.colon rest)
    let rest ← nullMember rest
    match Json.skipSpace rest with
    | [] => throw (.text (Json.Fault.at .eofInObject []))
    | '\x7d' :: rest => return (scope, rest)
    | rest => throw (.text (Json.Fault.at .expectedValue rest))
  | rest => throw (.text (Json.Fault.at .expectedValue rest))

/-- Any JSON value, one level down. -/
def valueMember (cs : List Char) : Except Fault (Json × List Char) :=
  lift (Json.value (Json.maxDepth - 1) cs)

/-- The next item of the array form. -/
def item {α : Type} (isFirst : Bool) (read : List Char → Except Fault (α × List Char))
    (cs : List Char) : Except Fault (α × List Char) :=
  match Json.skipSpace cs with
  | [] => .error (.text (Json.Fault.at .eofInList []))
  | ']' :: _ => .error .shape
  | c :: rest =>
    if isFirst then read (c :: rest)
    else if c ≠ ',' then .error (.text (Json.Fault.at .expectedListEnd (c :: rest)))
    else
      match Json.skipSpace rest with
      | [] => .error (.text (Json.Fault.at .eofInValue []))
      | ']' :: rest => .error (.text (Json.Fault.at .trailingComma (']' :: rest)))
      | rest => read rest

/-- The array form after its opening bracket. -/
def ofArray (cs : List Char) : Except Fault (Directive × List Char) := do
  let (scope, rest) ← item true scopeMember cs
  let (sectionName, rest) ← item false stringMember rest
  let (key, rest) ← item false stringMember rest
  let (value, rest) ← item false valueMember rest
  match Json.skipSpace rest with
  | [] => throw (.text (Json.Fault.at .eofInList []))
  | ']' :: rest => return (⟨⟨sectionName, key, value⟩, scope⟩, rest)
  | rest => throw (.text (Json.Fault.at .trailingCharacters rest))

/-- The members of the object form that were read so far. -/
structure Fields where
  scope : Option Scope := none
  sectionName : Option String := none
  key : Option String := none
  value : Option Json := none

def Fields.toDirective (fields : Fields) : Except Fault Directive :=
  match fields with
  | ⟨some scope, some sectionName, some key, some value⟩ => .ok ⟨⟨sectionName, key, value⟩, scope⟩
  | _ => .error .shape

/-- A member may occur once. -/
def once {α : Type} (old : Option α) : Except Fault Unit :=
  if old.isSome then .error .shape else .ok ()

def field (fields : Fields) (name : String) (cs : List Char) :
    Except Fault (Fields × List Char) := do
  if name = "scope" then
    once fields.scope
    let (_, rest) ← lift (Json.colon cs)
    let (scope, rest) ← scopeMember rest
    return ({ fields with scope := some scope }, rest)
  else if name = "section" then
    once fields.sectionName
    let (_, rest) ← lift (Json.colon cs)
    let (text, rest) ← stringMember rest
    return ({ fields with sectionName := some text }, rest)
  else if name = "key" then
    once fields.key
    let (_, rest) ← lift (Json.colon cs)
    let (text, rest) ← stringMember rest
    return ({ fields with key := some text }, rest)
  else if name = "value" then
    once fields.value
    let (_, rest) ← lift (Json.colon cs)
    let (value, rest) ← valueMember rest
    return ({ fields with value := some value }, rest)
  else
    let (_, rest) ← lift (Json.colon cs)
    let (_, rest) ← lift (Json.skipValue rest.length rest)
    return (fields, rest)

/-- The object form after its opening brace. The fuel is the length of the text. -/
def ofObject : Nat → Bool → Fields → List Char → Except Fault (Directive × List Char)
  | 0, _, _, rest => .error (.text (Json.Fault.at .eofInObject rest))
  | fuel + 1, isFirst, fields, cs => do
    match ← lift (Json.memberKey isFirst cs) with
    | (none, rest) => return (← fields.toDirective, rest)
    | (some name, rest) =>
      let (fields, rest) ← field fields name rest
      ofObject fuel false fields rest

def parse (text : String) : Except Fault Directive := do
  let (d, rest) ← match Json.skipSpace text.toList with
    | [] => throw (.text (Json.Fault.at .eofInValue []))
    | '[' :: rest => ofArray rest
    | '\x7b' :: rest => ofObject (rest.length + 1) true {} rest
    | rest => throw (unexpected rest)
  lift (Json.atEnd rest)
  return d

/-- The record of a directive, with its members in the order of their declaration. -/
def render (d : Directive) : String :=
  let member (name : String) (text : List Char) : List Char := Json.quoted name ++ ':' :: text
  let members := [member "scope" (Json.quoted (scopeName d.scope)),
    member "section" (Json.quoted d.sectionName), member "key" (Json.quoted d.key),
    member "value" d.value.text]
  String.ofList ('\x7b' :: [','].intercalate members ++ ['\x7d'])

end Directive.Record
end BatchFetch
