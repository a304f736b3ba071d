namespace BatchFetch.Yaml

/-- A place between two characters, counted from zero. -/
structure Mark where
  line : Nat := 0
  column : Nat := 0
  deriving DecidableEq, Repr, Inhabited

namespace Mark

/-- The place behind one more character of the line. -/
def next (mark : Mark) : Mark :=
  { mark with column := mark.column + 1 }

/-- The place behind some more characters of the line. -/
def advance (mark : Mark) (count : Nat) : Mark :=
  { mark with column := mark.column + count }

/-- The start of the line below. -/
def newLine (mark : Mark) : Mark :=
  ⟨mark.line + 1, 0⟩

end Mark

inductive Problem where
  /-- A character that may not stand in a text, behind some bytes. -/
  | controlCharacter (offset : Nat)
  | unexpectedCharacter
  | missingColon
  | misplacedEntry
  | misplacedKey
  | misplacedValue
  | unexpectedColon
  | tabInScalar
  | tabInBlock
  | unclosedQuote
  | markerInQuote
  | unknownEscape
  | expectedHexDigit
  | invalidCharacterCode
  | zeroIndentation
  | expectedLineEnd
  | badName
  | unclosedTag
  | expectedTagUri
  | badTagEscape
  | expectedBlank
  | expectedTagMark
  | expectedDirectiveName
  | badDirectiveName
  | unknownDirective
  | expectedVersion
  | badVersion
  | repeatedVersion
  | incompatibleVersion
  | repeatedHandle
  | undefinedHandle
  | expectedDocument
  | expectedNode
  | expectedDash
  | expectedKey
  | expectedItemEnd
  | expectedMemberEnd
  | unknownAnchor
  | furtherDocument
  | keyNotString
  | badTaggedScalar
  | numberOutOfRange
  | tooDeep
  | tooManyAliases
  deriving DecidableEq, Repr, Inhabited

def Problem.message : Problem → String
  | controlCharacter 0 => "control characters are not allowed"
  | controlCharacter offset => s!"control characters are not allowed at position {offset}"
  | unexpectedCharacter => "found character that cannot start any token"
  | missingColon => "could not find expected ':'"
  | misplacedEntry => "block sequence entries are not allowed in this context"
  | misplacedKey => "mapping keys are not allowed in this context"
  | misplacedValue => "mapping values are not allowed in this context"
  | unexpectedColon => "found unexpected ':'"
  | tabInScalar => "found a tab character that violates indentation"
  | tabInBlock => "found a tab character where an indentation space is expected"
  | unclosedQuote => "found unexpected end of stream"
  | markerInQuote => "found unexpected document indicator"
  | unknownEscape => "found unknown escape character"
  | expectedHexDigit => "did not find expected hexdecimal number"
  | invalidCharacterCode => "found invalid Unicode character escape code"
  | zeroIndentation => "found an indentation indicator equal to 0"
  | expectedLineEnd => "did not find expected comment or line break"
  | badName => "did not find expected alphabetic or numeric character"
  | unclosedTag => "did not find the expected '>'"
  | expectedTagUri => "did not find expected tag URI"
  | badTagEscape => "did not find URI escaped octet"
  | expectedBlank => "did not find expected whitespace or line break"
  | expectedTagMark => "did not find expected '!'"
  | expectedDirectiveName => "could not find expected directive name"
  | badDirectiveName => "found unexpected non-alphabetical character"
  | unknownDirective => "found unknown directive name"
  | expectedVersion => "did not find expected version number"
  | badVersion => "did not find expected digit or '.' character"
  | repeatedVersion => "found duplicate %YAML directive"
  | incompatibleVersion => "found incompatible YAML document"
  | repeatedHandle => "found duplicate %TAG directive"
  | undefinedHandle => "found undefined tag handle"
  | expectedDocument => "did not find expected <document start>"
  | expectedNode => "did not find expected node content"
  | expectedDash => "did not find expected '-' indicator"
  | expectedKey => "did not find expected key"
  | expectedItemEnd => "did not find expected ',' or ']'"
  | expectedMemberEnd => "did not find expected ',' or '\x7d'"
  | unknownAnchor => "unknown anchor"
  | furtherDocument => "deserializing from YAML containing more than one document is not supported"
  | keyNotString => "invalid type of a key, expected a string"
  | badTaggedScalar => "invalid value for a tag"
  | numberOutOfRange => "JSON number out of range"
  | tooDeep => "recursion limit exceeded"
  | tooManyAliases => "repetition limit exceeded"

/-- What was being read when a problem was found. -/
inductive Context where
  | nextToken
  | simpleKey
  | directive
  | versionDirective
  | tagDirective
  | anchor
  | reference
  | tag
  | tagUri
  | blockScalar
  | quotedScalar
  | escape
  | plainScalar
  | node
  | blockNode
  | flowNode
  | blockCollection
  | blockMapping
  | flowSequence
  | flowMapping
  deriving DecidableEq, Repr, Inhabited

def Context.message : Context → String
  | nextToken => "while scanning for the next token"
  | simpleKey => "while scanning a simple key"
  | directive => "while scanning a directive"
  | versionDirective => "while scanning a %YAML directive"
  | tagDirective => "while scanning a %TAG directive"
  | anchor => "while scanning an anchor"
  | reference => "while scanning an alias"
  | tag => "while scanning a tag"
  | tagUri => "while parsing a tag"
  | blockScalar => "while scanning a block scalar"
  | quotedScalar => "while scanning a quoted scalar"
  | escape => "while parsing a quoted scalar"
  | plainScalar => "while scanning a plain scalar"
  | node => "while parsing a node"
  | blockNode => "while parsing a block node"
  | flowNode => "while parsing a flow node"
  | blockCollection => "while parsing a block collection"
  | blockMapping => "while parsing a block mapping"
  | flowSequence => "while parsing a flow sequence"
  | flowMapping => "while parsing a flow mapping"

/-- A problem with its place, and what was being read with the place where it starts. The start of
the text is not worth mentioning. -/
structure Fault where
  problem : Problem
  mark : Mark := {}
  context : Option (Context × Mark) := none
  deriving DecidableEq, Repr, Inhabited

def Fault.at (problem : Problem) (mark : Mark) : Fault :=
  { problem, mark }

namespace Fault

def inside (fault : Fault) (context : Context) (start : Mark) : Fault :=
  { fault with context := some (context, start) }

def place (mark : Mark) : String :=
  s!" at line {mark.line + 1} column {mark.column + 1}"

def message (fault : Fault) : String :=
  let found := fault.problem.message ++ (if fault.mark = {} then "" else place fault.mark)
  match fault.context with
  | none => found
  | some (context, start) =>
    s!"{found}, {context.message}" ++
      (if start = {} || start = fault.mark then "" else place start)

end Fault

/-- The characters that end a line once the text is normalised. -/
def isBreak (c : Char) : Bool :=
  c == '\n' || c == '\u2028' || c == '\u2029'

def isBlank (c : Char) : Bool :=
  c == ' ' || c == '\t'

/-- Whether a text is at its end, at a line end or at a blank. -/
def startsBlank (text : List Char) : Bool :=
  match text with
  | [] => true
  | c :: _ => isBlank c || isBreak c

/-- The characters of anchors, tag handles and directive names. -/
def isWord (c : Char) : Bool :=
  c.isAlphanum || c == '_' || c == '-'

/-- The characters that may stand in a text at all. -/
def isAllowed (c : Char) : Bool :=
  let n := c.toNat
  c == '\t' || c == '\n' || c == '\r' || (0x20 ≤ n && n ≤ 0x7E) || n == 0x85 ||
    (0xA0 ≤ n && n ≤ 0xFFFD) || 0x10000 ≤ n

/-- Write every line break as a line feed; the two Unicode separators stay as they are. -/
def normalised : List Char → List Char
  | '\r' :: '\n' :: rest => '\n' :: normalised rest
  | c :: rest => (if c == '\r' || c == '\x85' then '\n' else c) :: normalised rest
  | [] => []

/-- Whether a text starts with three dashes or dots that stand alone, which mark the start or the
end of a document at the beginning of a line. -/
def isDocumentMarker : List Char → Bool
  | '-' :: '-' :: '-' :: rest => startsBlank rest
  | '.' :: '.' :: '.' :: rest => startsBlank rest
  | _ => false

end BatchFetch.Yaml
