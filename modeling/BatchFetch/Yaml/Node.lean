import BatchFetch.Yaml.Token

namespace BatchFetch.Yaml

/-- What may stand in front of the content of a node. -/
structure Properties where
  anchor : Option String := none
  tag : Option String := none
  deriving DecidableEq, Repr, Inhabited

inductive Node where
  | reference (name : String)
  | scalar (properties : Properties) (plain : Bool) (text : String)
  | sequence (properties : Properties) (items : List Node)
  | mapping (properties : Properties) (members : List (Node × Node))
  deriving Inhabited

namespace Node

/-- The node where nothing is written. -/
def empty : Node :=
  scalar {} true ""

/-- What tag handles stand for. -/
abbrev Handles := List (String × String)

def standardHandles : Handles :=
  [("!", "!"), ("!!", "tag:yaml.org,2002:")]

/-- What holds for a whole document: its tag handles, and what is wrong behind the last token. -/
structure Conventions where
  handles : Handles := standardHandles
  atEnd : Fault
  deriving Inhabited

namespace Conventions

def fail {α : Type} (conventions : Conventions) (problem : Problem) (tokens : List Placed) :
    Except Fault α :=
  match tokens with
  | [] => .error conventions.atEnd
  | placed :: _ => .error (.at problem placed.mark)

/-- A problem at the next token, inside of what starts at a place. -/
def failIn {α : Type} (conventions : Conventions) (problem : Problem) (context : Context)
    (start : Mark) (tokens : List Placed) : Except Fault α :=
  match tokens with
  | [] => .error conventions.atEnd
  | placed :: _ => .error (Fault.inside (.at problem placed.mark) context start)

/-- The tag that a handle and a suffix make. -/
def resolve (conventions : Conventions) (start mark : Mark) (handle suffix : String) :
    Except Fault String :=
  if handle.isEmpty then .ok suffix
  else
    match conventions.handles.lookup handle with
    | some lead => .ok (lead ++ suffix)
    | none => .error (Fault.inside (.at .undefinedHandle mark) .node start)

/-- Read an anchor and a tag, in either order and each at most once. -/
def properties (conventions : Conventions) (tokens : List Placed) :
    Except Fault (Properties × List Placed) :=
  match tokens with
  | ⟨.anchor name, start⟩ :: ⟨.tag handle suffix, mark⟩ :: rest =>
    (conventions.resolve start mark handle suffix).map fun tag => (⟨some name, some tag⟩, rest)
  | ⟨.tag handle suffix, mark⟩ :: ⟨.anchor name, _⟩ :: rest =>
    (conventions.resolve mark mark handle suffix).map fun tag => (⟨some name, some tag⟩, rest)
  | ⟨.anchor name, _⟩ :: rest => .ok (⟨some name, none⟩, rest)
  | ⟨.tag handle suffix, mark⟩ :: rest =>
    (conventions.resolve mark mark handle suffix).map fun tag => (⟨none, some tag⟩, rest)
  | tokens => .ok ({}, tokens)

end Conventions

def nextIsIn (ends : List Token) (tokens : List Placed) : Bool :=
  tokens.head?.any fun placed => ends.contains placed.token

def startOf (tokens : List Placed) : Mark :=
  (tokens.head?.map Placed.mark).getD {}

mutual
/-- Read a node. Block collections may stand only where `block` allows it, and entries without an
indentation of their own only where `indentless` does. -/
def read (fuel : Nat) (conventions : Conventions) (block indentless : Bool) (tokens : List Placed) :
    Except Fault (Node × List Placed) :=
  match fuel, tokens with
  | 0, _ => .error conventions.atEnd
  | _ + 1, ⟨.reference name, _⟩ :: rest => .ok (reference name, rest)
  | fuel + 1, tokens => do
    let start := startOf tokens
    let context := if block then Context.blockNode else .flowNode
    let (properties, tokens) ← conventions.properties tokens
    match tokens with
    | [] => .error conventions.atEnd
    | ⟨.scalar plain text, _⟩ :: rest => return (scalar properties plain text, rest)
    | ⟨.flowSequence, mark⟩ :: rest =>
      let (items, rest) ← readFlowItems fuel conventions mark true rest
      return (sequence properties items, rest)
    | ⟨.flowMapping, mark⟩ :: rest =>
      let (members, rest) ← readFlowMembers fuel conventions mark true rest
      return (mapping properties members, rest)
    | ⟨.blockSequence, mark⟩ :: rest =>
      if !block then conventions.failIn .expectedNode context start tokens
      else
        let (items, rest) ← readBlockItems fuel conventions mark rest
        return (sequence properties items, rest)
    | ⟨.blockMapping, mark⟩ :: rest =>
      if !block then conventions.failIn .expectedNode context start tokens
      else
        let (members, rest) ← readBlockMembers fuel conventions mark rest
        return (mapping properties members, rest)
    | ⟨token, _⟩ :: _ =>
      if indentless && token == .blockEntry then
        let (items, rest) ← readLooseItems fuel conventions tokens
        return (sequence properties items, rest)
      else if properties ≠ {} then return (scalar properties true "", tokens)
      else conventions.failIn .expectedNode context start tokens

/-- Read a node unless one of some tokens shows that nothing is written. -/
def readUnless (fuel : Nat) (conventions : Conventions) (block indentless : Bool)
    (ends : List Token) (tokens : List Placed) : Except Fault (Node × List Placed) :=
  match fuel with
  | 0 => .error conventions.atEnd
  | fuel + 1 =>
    if nextIsIn ends tokens then .ok (empty, tokens)
    else read fuel conventions block indentless tokens

def readBlockItems (fuel : Nat) (conventions : Conventions) (start : Mark) (tokens : List Placed) :
    Except Fault (List Node × List Placed) :=
  match fuel, tokens with
  | fuel + 1, ⟨.blockEntry, _⟩ :: rest => do
    let (item, rest) ← readUnless fuel conventions true false [.blockEntry, .blockEnd] rest
    let (items, rest) ← readBlockItems fuel conventions start rest
    return (item :: items, rest)
  | _ + 1, ⟨.blockEnd, _⟩ :: rest => .ok ([], rest)
  | _, tokens => conventions.failIn .expectedDash .blockCollection start tokens

/-- Read the entries of a sequence that is indented like the mapping around it. -/
def readLooseItems (fuel : Nat) (conventions : Conventions) (tokens : List Placed) :
    Except Fault (List Node × List Placed) :=
  match fuel, tokens with
  | 0, _ | _, [] => .error conventions.atEnd
  | fuel + 1, ⟨.blockEntry, _⟩ :: rest => do
    let (item, rest) ←
      readUnless fuel conventions true false [.blockEntry, .key, .value, .blockEnd] rest
    let (items, rest) ← readLooseItems fuel conventions rest
    return (item :: items, rest)
  | _ + 1, tokens => .ok ([], tokens)

def readBlockMembers (fuel : Nat) (conventions : Conventions) (start : Mark)
    (tokens : List Placed) : Except Fault (List (Node × Node) × List Placed) :=
  match fuel, tokens with
  | fuel + 1, ⟨.key, _⟩ :: rest => do
    let ends := [.key, .value, .blockEnd]
    let (key, rest) ← readUnless fuel conventions true true ends rest
    let (value, rest) ← readValue fuel conventions true ends rest
    let (members, rest) ← readBlockMembers fuel conventions start rest
    return ((key, value) :: members, rest)
  | _ + 1, ⟨.blockEnd, _⟩ :: rest => .ok ([], rest)
  | _, tokens => conventions.failIn .expectedKey .blockMapping start tokens

/-- Read the value behind a key, if there is one. -/
def readValue (fuel : Nat) (conventions : Conventions) (block : Bool) (ends : List Token)
    (tokens : List Placed) : Except Fault (Node × List Placed) :=
  match fuel, tokens with
  | 0, _ | _, [] => .error conventions.atEnd
  | fuel + 1, ⟨.value, _⟩ :: rest => readUnless fuel conventions block block ends rest
  | _ + 1, tokens => .ok (empty, tokens)

/-- Read the entries of a flow sequence and its end. An entry may be a mapping with a single member;
the sign behind a key that is not written is passed over. -/
def readFlowItems (fuel : Nat) (conventions : Conventions) (start : Mark) (first : Bool)
    (tokens : List Placed) : Except Fault (List Node × List Placed) :=
  match fuel with
  | 0 => .error conventions.atEnd
  | fuel + 1 => do
    let tokens ← match first, tokens with
      | false, ⟨.flowEntry, _⟩ :: rest => .ok rest
      | false, ⟨.flowSequenceEnd, _⟩ :: _ | true, _ => .ok tokens
      | false, _ => conventions.failIn .expectedItemEnd .flowSequence start tokens
    match tokens with
    | ⟨.flowSequenceEnd, _⟩ :: rest => return ([], rest)
    | ⟨.key, _⟩ :: rest =>
      let ends := [.flowEntry, .flowSequenceEnd]
      let (key, rest) ←
        if nextIsIn (.value :: ends) rest then .ok (empty, rest.drop 1)
        else read fuel conventions false false rest
      let (value, rest) ← readValue fuel conventions false ends rest
      let (items, rest) ← readFlowItems fuel conventions start false rest
      return (mapping {} [(key, value)] :: items, rest)
    | tokens =>
      let (item, rest) ← read fuel conventions false false tokens
      let (items, rest) ← readFlowItems fuel conventions start false rest
      return (item :: items, rest)

def readFlowMembers (fuel : Nat) (conventions : Conventions) (start : Mark) (first : Bool)
    (tokens : List Placed) : Except Fault (List (Node × Node) × List Placed) :=
  match fuel with
  | 0 => .error conventions.atEnd
  | fuel + 1 => do
    let tokens ← match first, tokens with
      | false, ⟨.flowEntry, _⟩ :: rest => .ok rest
      | false, ⟨.flowMappingEnd, _⟩ :: _ | true, _ => .ok tokens
      | false, _ => conventions.failIn .expectedMemberEnd .flowMapping start tokens
    match tokens with
    | ⟨.flowMappingEnd, _⟩ :: rest => return ([], rest)
    | ⟨.key, _⟩ :: rest =>
      let ends := [.flowEntry, .flowMappingEnd]
      let (key, rest) ← readUnless fuel conventions false false (.value :: ends) rest
      let (value, rest) ← readValue fuel conventions false ends rest
      let (members, rest) ← readFlowMembers fuel conventions start false rest
      return ((key, value) :: members, rest)
    | tokens =>
      let (key, rest) ← read fuel conventions false false tokens
      let (members, rest) ← readFlowMembers fuel conventions start false rest
      return ((key, empty) :: members, rest)
end

/-- Read the directives in front of a document. At most one names the version, and each handle is
declared once. -/
def readDirectives (versioned : Bool) (conventions : Conventions) :
    List Placed → Except Fault (Conventions × List Placed)
  | ⟨.version major minor, mark⟩ :: rest =>
    if versioned then .error (.at .repeatedVersion mark)
    else if major ≠ 1 || (minor ≠ 1 && minor ≠ 2) then .error (.at .incompatibleVersion mark)
    else readDirectives true conventions rest
  | ⟨.tagHandle handle lead, mark⟩ :: rest =>
    if (conventions.handles.lookup handle).isSome then .error (.at .repeatedHandle mark)
    else
      let handles := (handle, lead) :: conventions.handles
      readDirectives versioned { conventions with handles } rest
  | tokens => .ok ({ conventions with handles := conventions.handles ++ standardHandles }, tokens)

/-- Whether a document has no content. -/
def endsDocument : Token → Bool
  | .version _ _ | .tagHandle _ _ | .documentStart | .documentEnd | .streamEnd => true
  | _ => false

/-- Enough fuel for a list of tokens: at least every third step takes up a token. -/
def fuelFor (tokens : List Placed) : Nat :=
  3 * tokens.length + 3

/-- Read the document that starts a list of tokens. Only a document without directives may leave out
its first line. -/
def readDocument (atEnd : Fault) (tokens : List Placed) : Except Fault (Node × List Placed) := do
  let (conventions, rest) ← readDirectives false { handles := [], atEnd } tokens
  match rest with
  | ⟨.documentStart, _⟩ :: rest =>
    if rest.head?.any fun placed => endsDocument placed.token then return (empty, rest)
    else read (fuelFor tokens) conventions true false rest
  | rest =>
    if rest.length = tokens.length then read (fuelFor tokens) conventions true false rest
    else conventions.fail .expectedDocument rest

/-- The node of the only document, if there is a document. -/
def ofTokens (tokens : List Placed) (fault : Option Fault) : Except Fault (Option Node) :=
  let atEnd := fault.getD { problem := .expectedNode }
  match tokens with
  | [] => .error atEnd
  | ⟨.streamEnd, _⟩ :: _ => .ok none
  | tokens => do
    let (node, rest) ← readDocument atEnd tokens
    match rest.dropWhile (·.token == .documentEnd) with
    | [] => .error atEnd
    | ⟨.streamEnd, _⟩ :: _ => return some node
    | _ => .error { problem := .furtherDocument }

end Node
end BatchFetch.Yaml
