import BatchFetch.Url.Percent
import BatchFetch.Yaml.Scalar

namespace BatchFetch.Yaml

inductive Token where
  | version (major minor : Nat)
  /-- A tag handle and what it stands for. -/
  | tagHandle (handle lead : String)
  | documentStart
  | documentEnd
  | blockSequence
  | blockMapping
  | blockEnd
  | flowSequence
  | flowSequenceEnd
  | flowMapping
  | flowMappingEnd
  | blockEntry
  | flowEntry
  | key
  | value
  | reference (name : String)
  | anchor (name : String)
  | tag (handle suffix : String)
  | scalar (plain : Bool) (text : String)
  | streamEnd
  deriving DecidableEq, Repr, Inhabited

structure Placed where
  token : Token
  mark : Mark
  deriving DecidableEq, Repr, Inhabited

/-- A place at which a key may have started. -/
structure KeyStart where
  /-- Nothing but a key may stand there. -/
  required : Bool
  /-- The number of tokens in front of it. -/
  position : Nat
  mark : Mark
  deriving DecidableEq, Inhabited

structure Lexer where
  rest : List Char
  mark : Mark := {}
  /-- The tokens so far, latest first. -/
  reversed : List Placed := []
  /-- The columns of the blocks that are open, innermost first. -/
  indents : List Nat := []
  /-- Whether a key may start here. -/
  keyAllowed : Bool := true
  /-- For each open flow collection, innermost first, and for the block around them. -/
  keys : List (Option KeyStart) := [none]
  deriving Inhabited

namespace Lexer

def inFlow (lexer : Lexer) : Bool :=
  1 < lexer.keys.length

/-- The column at which the content of the innermost block may start. -/
def margin (lexer : Lexer) : Nat :=
  match lexer.indents with
  | [] => 0
  | indent :: _ => indent + 1

def fail {α : Type} (lexer : Lexer) (problem : Problem) : Except Fault α :=
  .error (.at problem lexer.mark)

def emit (lexer : Lexer) (token : Token) : Lexer :=
  { lexer with reversed := ⟨token, lexer.mark⟩ :: lexer.reversed }

/-- Put a token behind the first `position` tokens. -/
def emitAt (lexer : Lexer) (position : Nat) (placed : Placed) : Lexer :=
  { lexer with
    reversed := lexer.reversed.insertIdx (lexer.reversed.length - position) placed }

def skip (lexer : Lexer) (count : Nat) : Lexer :=
  { lexer with rest := lexer.rest.drop count, mark := lexer.mark.advance count }

/-- Give up a place at which a key may have started. -/
def dropKey (lexer : Lexer) : Option KeyStart → Except Fault (Option KeyStart)
  | some start =>
    if start.required then
      .error (Fault.inside (.at .missingColon lexer.mark) .simpleKey start.mark)
    else .ok none
  | none => .ok none

/-- Give up the innermost place at which a key may have started. -/
def removeKey (lexer : Lexer) : Except Fault Lexer :=
  match lexer.keys with
  | [] => .ok lexer
  | start :: outer => (lexer.dropKey start).map fun start => { lexer with keys := start :: outer }

/-- The longest stretch that a key may take up. -/
def longestKey : Nat := 1024

/-- Give up the places that are too far away for a key. -/
def removeStaleKeys (lexer : Lexer) : Except Fault Lexer :=
  let keep (start : Option KeyStart) : Except Fault (Option KeyStart) :=
    match start with
    | none => .ok none
    | some start =>
      if start.mark.line < lexer.mark.line ||
          start.mark.column + longestKey < lexer.mark.column then
        lexer.dropKey (some start)
      else .ok (some start)
  (lexer.keys.mapM keep).map fun keys => { lexer with keys }

/-- Remember that a key may start here. -/
def saveKey (lexer : Lexer) : Except Fault Lexer :=
  if !lexer.keyAllowed then .ok lexer
  else
    lexer.removeKey.map fun lexer =>
      let required := !lexer.inFlow && lexer.indents.head? == some lexer.mark.column
      { lexer with
        keys := some ⟨required, lexer.reversed.length, lexer.mark⟩ :: lexer.keys.drop 1 }

/-- Open a block at a place that lies right of the innermost one, behind the first `position`
tokens. -/
def openBlock (lexer : Lexer) (mark : Mark) (position : Nat) (token : Token) : Lexer :=
  if !lexer.inFlow && lexer.margin ≤ mark.column then
    { lexer.emitAt position ⟨token, mark⟩ with indents := mark.column :: lexer.indents }
  else lexer

def openBlockHere (lexer : Lexer) (token : Token) : Lexer :=
  lexer.openBlock lexer.mark lexer.reversed.length token

/-- Close the blocks whose content starts right of a column. -/
def closeBlocks (lexer : Lexer) (closes : Nat → Bool) : Lexer :=
  if lexer.inFlow then lexer
  else
    { lexer with
      reversed :=
        (lexer.indents.takeWhile closes).map (fun _ => ⟨.blockEnd, lexer.mark⟩) ++ lexer.reversed
      indents := lexer.indents.dropWhile closes }

/-- Pass blanks, comments and line breaks. A tab must not stand where a key may start in a block. -/
def skipSpace (inFlow keyAllowed : Bool) (mark : Mark) (inComment : Bool) :
    List Char → Bool × Mark × List Char
  | [] => (keyAllowed, mark, [])
  | c :: rest =>
    if isBreak c then skipSpace inFlow (keyAllowed || !inFlow) mark.newLine false rest
    else if inComment || c == '#' then skipSpace inFlow keyAllowed mark.next true rest
    else if c == ' ' || (c == '\t' && (inFlow || !keyAllowed)) then
      skipSpace inFlow keyAllowed mark.next false rest
    else (keyAllowed, mark, c :: rest)

/-- Read the name of an anchor or an alias behind its sign. -/
def name (lexer : Lexer) : Except Fault (String × Lexer) :=
  let text := lexer.rest.drop 1
  let name := text.takeWhile isWord
  let rest := text.drop name.length
  let ends := match rest with
    | [] => true
    | c :: _ => startsBlank rest || "?:,]\x7d%@`".toList.contains c
  let behind := lexer.skip (name.length + 1)
  if name.isEmpty || !ends then behind.fail .badName else .ok (String.ofList name, behind)

/-- The characters of tags besides words; the last three only between angle brackets. -/
def isTagChar (verbatim : Bool) (c : Char) : Bool :=
  isWord c || ";/?:@&=+$.%!~*'()".toList.contains c || (verbatim && ",[]".toList.contains c)

/-- Whether each percent sign of a text starts an escape. -/
def hasWholeEscapes : List Char → Bool
  | '%' :: a :: b :: rest =>
    (Text.hexValue? a).isSome && (Text.hexValue? b).isSome && hasWholeEscapes rest
  | '%' :: _ => false
  | _ :: rest => hasWholeEscapes rest
  | [] => true

/-- Read the rest of a tag or of what a handle stands for. -/
def tagUri (lexer : Lexer) (verbatim : Bool) : Except Fault (String × Lexer) :=
  let written := lexer.rest.takeWhile (isTagChar verbatim)
  let behind := lexer.skip written.length
  let decoded :=
    if hasWholeEscapes written then Text.Utf8.decode? (Percent.decode written) else none
  match decoded with
  | none => lexer.fail .badTagEscape
  | some uri => .ok (String.ofList uri, behind)

/-- The length of the handle that starts a text: an exclamation mark, or a name between two. -/
def handleLength (text : List Char) : Option Nat :=
  match text with
  | '!' :: rest =>
    let name := rest.takeWhile isWord
    match rest.drop name.length with
    | '!' :: _ => some (name.length + 2)
    | _ => none
  | _ => none

/-- Read a tag up to the character that ends it. -/
def tagBody (lexer : Lexer) : Except Fault (Token × Lexer) := do
  match lexer.rest, handleLength lexer.rest with
  | '!' :: '<' :: _, _ =>
    let (uri, lexer) ← (lexer.skip 2).tagUri true
    if uri.isEmpty then lexer.fail .expectedTagUri
    else if lexer.rest.head? ≠ some '>' then lexer.fail .unclosedTag
    else return (.tag "" uri, lexer.skip 1)
  | text, some length =>
    let (uri, lexer) ← (lexer.skip length).tagUri false
    if uri.isEmpty then lexer.fail .expectedTagUri
    else return (.tag (String.ofList (text.take length)) uri, lexer)
  | _, none =>
    let (uri, lexer) ← (lexer.skip 1).tagUri false
    return (if uri.isEmpty then .tag "" "!" else .tag "!" uri, lexer)

def tag (lexer : Lexer) : Except Fault (Token × Lexer) := do
  let (token, lexer) ← lexer.tagBody
  if startsBlank lexer.rest || (lexer.inFlow && lexer.rest.head? == some ',') then
    return (token, lexer)
  else lexer.fail .expectedBlank

/-- What was being read when a tag proved wrong. -/
def tagContext : Problem → Context
  | .expectedTagUri | .badTagEscape => .tagUri
  | _ => .tag

def skipBlanks (lexer : Lexer) : Lexer :=
  lexer.skip (lexer.rest.takeWhile isBlank).length

/-- Read a number of up to nine digits. -/
def versionNumber (lexer : Lexer) : Except Fault (Nat × Lexer) :=
  let digits := lexer.rest.takeWhile Char.isDigit
  if 9 < digits.length then lexer.fail .expectedVersion
  else
    match Text.number? 10 digits with
    | some n => .ok (n, lexer.skip digits.length)
    | none => lexer.fail .expectedVersion

/-- Read the version that a directive names. -/
def versionDirective (lexer : Lexer) : Except Fault (Token × Lexer) := do
  let (major, lexer) ← lexer.skipBlanks.versionNumber
  if lexer.rest.head? ≠ some '.' then lexer.fail .badVersion
  else
    let (minor, lexer) ← (lexer.skip 1).versionNumber
    return (.version major minor, lexer)

/-- Read the handle that a directive declares, and what it stands for. -/
def tagDirective (lexer : Lexer) : Except Fault (Token × Lexer) := do
  let lexer := lexer.skipBlanks
  let length := (handleLength lexer.rest).getD 1
  let handle := lexer.rest.take length
  if handle.head? ≠ some '!' then lexer.fail .expectedTagMark
  else
    let lexer := lexer.skip length
    if !(lexer.rest.head?.any isBlank) then lexer.fail .expectedBlank
    else
      let (lead, lexer) ← lexer.skipBlanks.tagUri true
      if lead.isEmpty then lexer.fail .expectedTagUri
      else if !startsBlank lexer.rest then lexer.fail .expectedBlank
      else return (.tagHandle (String.ofList handle) lead, lexer)

/-- Read what a directive says, behind its name. -/
def directiveBody (lexer : Lexer) (start : Mark) (name : String) : Except Fault (Token × Lexer) :=
  match name with
  | "YAML" => lexer.versionDirective.mapError (·.inside .versionDirective start)
  | "TAG" => lexer.tagDirective.mapError (·.inside .tagDirective start)
  | _ => (lexer.fail .unknownDirective).mapError (·.inside .directive start)

/-- Read a directive, which takes up its line. -/
def directive (lexer : Lexer) : Except Fault Lexer := do
  let start := lexer.mark
  let opened := lexer.skip 1
  let name := opened.rest.takeWhile isWord
  let named := opened.skip name.length
  let wrong (problem : Problem) : Except Fault Lexer :=
    .error (Fault.inside (.at problem named.mark) .directive start)
  if name.isEmpty then wrong .expectedDirectiveName
  else if !startsBlank named.rest then wrong .badDirectiveName
  else
    let (token, behind) ← named.directiveBody start (String.ofList name)
    let rest ← (lineRest behind.mark behind.rest).mapError (·.inside .directive start)
    let emitted := lexer.emit token
    return match rest with
      | [] => { emitted with rest := [], mark := behind.mark }
      | _ :: rest => { emitted with rest, mark := behind.mark.newLine }

/-- Close all blocks, at the border of a document. -/
def leaveDocument (lexer : Lexer) : Except Fault Lexer :=
  (lexer.closeBlocks fun _ => true).removeKey.map fun lexer => { lexer with keyAllowed := false }

def openFlow (lexer : Lexer) (token : Token) : Except Fault Lexer :=
  lexer.saveKey.map fun lexer =>
    { (lexer.emit token).skip 1 with keys := none :: lexer.keys, keyAllowed := true }

def closeFlow (lexer : Lexer) (token : Token) : Except Fault Lexer :=
  lexer.removeKey.map fun lexer =>
    let keys := if lexer.inFlow then lexer.keys.drop 1 else lexer.keys
    { (lexer.emit token).skip 1 with keys, keyAllowed := false }

/-- The sign between the entries of a flow collection. -/
def flowEntry (lexer : Lexer) : Except Fault Lexer :=
  lexer.removeKey.map fun lexer => { (lexer.emit .flowEntry).skip 1 with keyAllowed := true }

/-- The dash in front of an entry. -/
def blockEntry (lexer : Lexer) : Except Fault Lexer :=
  if !lexer.inFlow && !lexer.keyAllowed then lexer.fail .misplacedEntry
  else
    (lexer.openBlockHere .blockSequence).removeKey.map fun lexer =>
      { (lexer.emit .blockEntry).skip 1 with keyAllowed := true }

/-- The question mark in front of a key. -/
def explicitKey (lexer : Lexer) : Except Fault Lexer :=
  if !lexer.inFlow && !lexer.keyAllowed then lexer.fail .misplacedKey
  else
    (lexer.openBlockHere .blockMapping).removeKey.map fun lexer =>
      { (lexer.emit .key).skip 1 with keyAllowed := !lexer.inFlow }

/-- The colon in front of a value. It makes a key of what may have started one. -/
def value (lexer : Lexer) : Except Fault Lexer :=
  match lexer.keys with
  | some start :: outer =>
    let keyed := lexer.emitAt start.position ⟨.key, start.mark⟩
    let lexer := keyed.openBlock start.mark start.position .blockMapping
    .ok { (lexer.emit .value).skip 1 with keys := none :: outer, keyAllowed := false }
  | _ =>
    if !lexer.inFlow && !lexer.keyAllowed then lexer.fail .misplacedValue
    else
      let lexer := lexer.openBlockHere .blockMapping
      .ok { (lexer.emit .value).skip 1 with keyAllowed := !lexer.inFlow }

/-- Emit a scalar that has been read from here. -/
def scalar (lexer : Lexer) (plain : Bool) (found : ScalarRead) : Lexer :=
  { lexer.emit (.scalar plain found.text) with rest := found.rest, mark := found.mark }

def flowScalar (lexer : Lexer) (double : Bool) : Except Fault Lexer := do
  let lexer ← lexer.saveKey
  let found ← (readQuoted double {} lexer.mark.next (lexer.rest.drop 1)).mapError fun fault =>
    fault.inside (quotedContext fault.problem) lexer.mark
  return { lexer.scalar false found with keyAllowed := false }

def blockScalar (lexer : Lexer) (literal : Bool) : Except Fault Lexer := do
  let lexer ← lexer.removeKey
  let found ← (readBlock literal lexer.margin lexer.mark.next (lexer.rest.drop 1)).mapError
    (·.inside .blockScalar lexer.mark)
  return { lexer.scalar false found with keyAllowed := true }

def plainScalar (lexer : Lexer) : Except Fault Lexer := do
  let lexer ← lexer.saveKey
  let found ← (readPlain lexer.inFlow lexer.margin {} lexer.mark lexer.rest).mapError
    (·.inside .plainScalar lexer.mark)
  return { lexer.scalar true found with keyAllowed := found.onNewLine }

/-- Emit a token that a reader has read from here, in front of which a key may start. -/
def prefixed (lexer : Lexer) (read : Lexer → Except Fault (Token × Lexer))
    (context : Problem → Context) : Except Fault Lexer := do
  let lexer ← lexer.saveKey
  let (token, behind) ← (read lexer).mapError fun fault =>
    fault.inside (context fault.problem) lexer.mark
  return { lexer.emit token with rest := behind.rest, mark := behind.mark, keyAllowed := false }

def named (make : String → Token) (lexer : Lexer) : Except Fault (Token × Lexer) :=
  lexer.name.map fun (name, lexer) => (make name, lexer)

/-- The signs with a meaning of their own at the start of a token. -/
def isIndicator (c : Char) : Bool :=
  "-?:,[]\x7b\x7d#&*!|>'\"%@`".toList.contains c

/-- Whether a plain scalar may start with a character. -/
def startsPlain (lexer : Lexer) (c : Char) (rest : List Char) : Bool :=
  let blankNext := startsBlank rest
  if c == '-' then !(rest.head?.any isBlank)
  else if c == '?' || c == ':' then !lexer.inFlow && !blankNext
  else !isIndicator c && !isBlank c && !isBreak c

/-- Read one token at a character that is not white space. -/
def token (lexer : Lexer) (c : Char) (rest : List Char) : Except Fault Lexer :=
  let atStart := lexer.mark.column == 0
  let alone := startsBlank rest
  if atStart && c == '%' then do (← lexer.leaveDocument).directive
  else if atStart && isDocumentMarker (c :: rest) then do
    let lexer ← lexer.leaveDocument
    return (lexer.emit (if c == '-' then .documentStart else .documentEnd)).skip 3
  else if c == '[' then lexer.openFlow .flowSequence
  else if c == '\x7b' then lexer.openFlow .flowMapping
  else if c == ']' then lexer.closeFlow .flowSequenceEnd
  else if c == '\x7d' then lexer.closeFlow .flowMappingEnd
  else if c == ',' then lexer.flowEntry
  else if c == '-' && alone then lexer.blockEntry
  else if c == '?' && (lexer.inFlow || alone) then lexer.explicitKey
  else if c == ':' && (lexer.inFlow || alone) then lexer.value
  else if c == '*' then lexer.prefixed (named .reference) fun _ => .reference
  else if c == '&' then lexer.prefixed (named .anchor) fun _ => .anchor
  else if c == '!' then lexer.prefixed tag tagContext
  else if c == '|' && !lexer.inFlow then lexer.blockScalar true
  else if c == '>' && !lexer.inFlow then lexer.blockScalar false
  else if c == '\'' then lexer.flowScalar false
  else if c == '"' then lexer.flowScalar true
  else if lexer.startsPlain c rest then lexer.plainScalar
  else .error (Fault.inside (.at .unexpectedCharacter lexer.mark) .nextToken lexer.mark)

/-- Pass white space and give up the keys and blocks that it ends. -/
def settle (lexer : Lexer) : Except Fault Lexer :=
  let (keyAllowed, mark, rest) :=
    skipSpace lexer.inFlow lexer.keyAllowed lexer.mark false lexer.rest
  let passed : Lexer := { lexer with keyAllowed, mark, rest }
  passed.removeStaleKeys.map fun lexer => lexer.closeBlocks (lexer.mark.column < ·)

/-- The end of the text, which counts as the start of a line. -/
def finish (lexer : Lexer) : Except Fault Lexer :=
  let mark := if lexer.mark.column = 0 then lexer.mark else lexer.mark.newLine
  (leaveDocument { lexer with mark }).map (·.emit .streamEnd)

/-- The tokens that are certain: all in front of the first one that may still become a key. -/
def certain (lexer : Lexer) : List Placed :=
  let pending := lexer.keys.filterMap (·.map KeyStart.position)
  lexer.reversed.reverse.take (pending.foldl min lexer.reversed.length)

/-- Read tokens up to the first problem. The fuel bounds their number. -/
def run : Nat → Lexer → List Placed × Option Fault
  | 0, lexer => (lexer.certain, none)
  | fuel + 1, lexer =>
    match lexer.settle with
    | .error fault => (lexer.certain, some fault)
    | .ok settled =>
      match settled.rest with
      | [] =>
        match settled.finish with
        | .error fault => (lexer.certain, some fault)
        | .ok finished => (finished.reversed.reverse, none)
      | c :: rest =>
        match settled.token c rest with
        | .error fault => (lexer.certain, some fault)
        | .ok next => run fuel next

end Lexer

/-- The number of bytes in front of the first character that may not stand in a text. -/
def strangeOffset? (text : List Char) : Option Nat :=
  let kept := text.takeWhile isAllowed
  if kept.length = text.length then none else some (Text.Utf8.size kept)

/-- The tokens of a text up to the first problem, and that problem. A byte order mark at its start
is passed over. Every token takes up a character, so the length of the text bounds their number. -/
def Placed.ofText (text : String) : List Placed × Option Fault :=
  match strangeOffset? text.toList with
  | some offset => ([], some { problem := .controlCharacter offset })
  | none =>
    let rest := normalised <| match text.toList with
      | '\uFEFF' :: rest => rest
      | text => text
    Lexer.run (rest.length + 1) { rest }

end BatchFetch.Yaml
