import BatchFetch.Json.Value

namespace BatchFetch.Toml

inductive Problem where
  | controlCharacter
  | expectedKey
  | expectedEquals
  | expectedValue
  | expectedLineEnd
  | expectedHeaderEnd
  | expectedComma
  | unclosedString
  | badEscape
  | badNumber
  | badDate
  | duplicateKey
  | extendedValue
  | tooDeep
  deriving DecidableEq, Repr, Inhabited

def Problem.message : Problem → String
  | controlCharacter => "invalid character"
  | expectedKey => "expected a key"
  | expectedEquals => "expected `=` behind a key"
  | expectedValue => "expected a value"
  | expectedLineEnd => "expected a new line"
  | expectedHeaderEnd => "unclosed table header"
  | expectedComma => "expected `,` or the end of a collection"
  | unclosedString => "unclosed string"
  | badEscape => "invalid escape sequence"
  | badNumber => "invalid number"
  | badDate => "invalid date or time"
  | duplicateKey => "duplicate key"
  | extendedValue => "cannot extend a value with a dotted key"
  | tooDeep => "recursion limit exceeded"

/-- How a table has come to be. -/
inductive Form where
  /-- It is spelled out as a value. -/
  | inlined
  /-- A header names it. -/
  | header
  /-- The header of a table inside it names it on the way. -/
  | implied
  /-- Dotted keys name it on the way. -/
  | dotted
  deriving DecidableEq, Repr, Inhabited

inductive Node where
  | leaf (value : Json)
  | array (items : List Node)
  | table (form : Form) (members : List (String × Node))
  /-- An array of tables, each under a header of its own, latest first. -/
  | tables (latestFirst : List (List (String × Node)))
  deriving Inhabited

/-- The members of a table in the order of their keys. -/
abbrev Members := List (String × Node)

namespace Members

/-- Add a value under a dotted key that ends in `key`. Its tables are made by dotted keys, from the
one it starts in on; `accepts` tells whether this one takes values. -/
def assign (key : String) (value : Node) (accepts : Bool) (members : Members) :
    List String → Except Problem Members
  | [] =>
    if !accepts || (Entries.get? key members).isSome then .error .duplicateKey
    else .ok (Entries.insert key value members)
  | part :: path =>
    let put (node : Node) : Members := Entries.insert part node members
    match Entries.get? part members with
    | none => (assign key value true [] path).map fun inner => put (.table .dotted inner)
    | some (.table .dotted inner) =>
      (assign key value true inner path).map fun inner => put (.table .dotted inner)
    | some (.table .implied inner) =>
      (assign key value false inner path).map fun inner => put (.table .implied inner)
    | some (.tables (latest :: earlier)) =>
      (assign key value false latest path).map fun latest => put (.tables (latest :: earlier))
    | some (.table .header _) => .error .duplicateKey
    | some _ => .error .extendedValue

/-- Change the table under a path. Tables that are missing on the way are implied; of an array of
tables the latest one is meant. -/
def change (act : Members → Except Problem Members) (members : Members) :
    List String → Except Problem Members
  | [] => act members
  | part :: path =>
    let put (node : Node) : Members := Entries.insert part node members
    match Entries.get? part members with
    | none => (change act [] path).map fun inner => put (.table .implied inner)
    | some (.table .inlined _) => .error .extendedValue
    | some (.table form inner) => (change act inner path).map fun inner => put (.table form inner)
    | some (.tables (latest :: earlier)) =>
      (change act latest path).map fun latest => put (.tables (latest :: earlier))
    | some _ => .error .extendedValue

/-- Open the table of a header. It may have been implied before. -/
def openTable (key : String) (members : Members) : Except Problem Members :=
  match Entries.get? key members with
  | none => .ok (Entries.insert key (.table .header []) members)
  | some (.table .implied inner) => .ok (Entries.insert key (.table .header inner) members)
  | some _ => .error .duplicateKey

/-- Open a further table of an array of tables. -/
def openElement (key : String) (members : Members) : Except Problem Members :=
  match Entries.get? key members with
  | none => .ok (Entries.insert key (.tables [[]]) members)
  | some (.tables earlier) => .ok (Entries.insert key (.tables ([] :: earlier)) members)
  | some _ => .error .duplicateKey

end Members

/-- A key: the tables on the way, and the name in the last of them. -/
structure DottedKey where
  path : List String
  name : String
  deriving DecidableEq, Repr, Inhabited

/-- A value under a key. -/
structure Assignment where
  key : DottedKey
  value : Node
  deriving Inhabited

inductive Statement where
  | assign (assignment : Assignment)
  | table (key : DottedKey)
  | element (key : DottedKey)
  deriving Inhabited

/-- The table that assignments spell out. -/
def Members.ofAssignments (assignments : List Assignment) : Except Problem Members :=
  assignments.foldlM (fun members assignment =>
    members.assign assignment.key.name assignment.value true assignment.key.path) []

/-- The root table so far, and the path of the table that the last header has opened. -/
structure Document where
  root : Members := []
  current : List String := []
  deriving Inhabited

namespace Document

def add (document : Document) : Statement → Except Problem Document
  | .assign ⟨key, value⟩ =>
    let act (members : Members) : Except Problem Members :=
      members.assign key.name value true key.path
    (document.root.change act document.current).map fun root => { document with root }
  | .table key =>
    (document.root.change (Members.openTable key.name) key.path).map fun root =>
      ⟨root, key.path ++ [key.name]⟩
  | .element key =>
    (document.root.change (Members.openElement key.name) key.path).map fun root =>
      ⟨root, key.path ++ [key.name]⟩

def ofStatements (statements : List Statement) : Except Problem Document :=
  statements.foldlM add {}

end Document

mutual
def Node.value : Node → Json
  | .leaf value => value
  | .array items => .arr (itemValues items)
  | .table _ members => Json.ofMembers (memberValues members)
  | .tables latestFirst => .arr (tableValues latestFirst).reverse

def Node.itemValues : List Node → List Json
  | [] => []
  | item :: rest => item.value :: itemValues rest

def Node.memberValues : List (String × Node) → List (String × Json)
  | [] => []
  | (key, node) :: rest => (key, node.value) :: memberValues rest

def Node.tableValues : List (List (String × Node)) → List Json
  | [] => []
  | members :: rest => Json.ofMembers (memberValues members) :: tableValues rest
end

def Document.value (document : Document) : Json :=
  Json.ofMembers (Node.memberValues document.root)

end BatchFetch.Toml
