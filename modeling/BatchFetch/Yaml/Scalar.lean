import BatchFetch.Text.Digits
import BatchFetch.Yaml.Folding

namespace BatchFetch.Yaml

structure ScalarRead where
  text : String
  mark : Mark
  rest : List Char
  /-- Whether line breaks were passed behind the text. -/
  onNewLine : Bool := false
  deriving Inhabited

def isFlowIndicator (c : Char) : Bool :=
  c == ',' || c == '[' || c == ']' || c == '\x7b' || c == '\x7d'

/-- Whether a plain scalar ends in front of a character that is not white space. -/
def endsPlain (inFlow : Bool) (margin : Nat) (folding : Folding) (mark : Mark) (c : Char)
    (rest : List Char) : Bool :=
  (folding.inGap && (c == '#' || (!inFlow && mark.column < margin))) ||
    (mark.column == 0 && isDocumentMarker (c :: rest)) || (c == ':' && startsBlank rest) ||
    (inFlow && isFlowIndicator c)

/-- Read a plain scalar whose lines start at the margin or right of it. -/
def readPlain (inFlow : Bool) (margin : Nat) (folding : Folding) (mark : Mark) :
    List Char → Except Fault ScalarRead
  | [] => .ok ⟨folding.text, mark, [], folding.onNewLine⟩
  | c :: rest =>
    if isBlank c then
      if folding.onNewLine && c == '\t' && mark.column < margin then
        .error (.at .tabInScalar mark)
      else readPlain inFlow margin (folding.blank c) mark.next rest
    else if isBreak c then readPlain inFlow margin (folding.lineBreak c) mark.newLine rest
    else if endsPlain inFlow margin folding mark c rest then
      .ok ⟨folding.text, mark, c :: rest, folding.onNewLine⟩
    else if inFlow && c == ':' && rest.head?.any fun d => d == '?' || isFlowIndicator d then
      .error (.at .unexpectedColon mark)
    else readPlain inFlow margin (folding.char c) mark.next rest

/-- The characters that an escape with a single letter stands for. -/
def simpleEscape? : Char → Option Char
  | '0' => some '\x00'
  | 'a' => some '\x07'
  | 'b' => some '\x08'
  | 't' | '\t' => some '\t'
  | 'n' => some '\n'
  | 'v' => some '\x0b'
  | 'f' => some '\x0c'
  | 'r' => some '\r'
  | 'e' => some '\x1b'
  | ' ' => some ' '
  | '"' => some '"'
  | '/' => some '/'
  | '\\' => some '\\'
  | 'N' => some '\x85'
  | '_' => some '\xa0'
  | 'L' => some '\u2028'
  | 'P' => some '\u2029'
  | _ => none

/-- The number of hexadecimal digits behind the letter of an escape. -/
def escapeDigits? : Char → Option Nat
  | 'x' => some 2
  | 'u' => some 4
  | 'U' => some 8
  | _ => none

/-- What is wrong with a character code that names no character. -/
def codeProblem (count : Nat) (text : List Char) : Problem :=
  let digits := text.take count
  if digits.length = count && (Text.number? 16 digits).isSome then .invalidCharacterCode
  else .expectedHexDigit

/-- What was being read when a quoted scalar proved wrong. -/
def quotedContext : Problem → Context
  | .unknownEscape | .expectedHexDigit | .invalidCharacterCode => .escape
  | _ => .quotedScalar

/-- Read a quoted scalar behind its opening quote. In single quotes a quote is written twice; in
double quotes there are escapes. -/
def readQuoted (double : Bool) (folding : Folding) (mark : Mark) (text : List Char) :
    Except Fault ScalarRead :=
  match text with
  | [] => .error (.at .unclosedQuote mark)
  | c :: rest =>
    if mark.column == 0 && isDocumentMarker (c :: rest) then .error (.at .markerInQuote mark)
    else if isBlank c then readQuoted double (folding.blank c) mark.next rest
    else if isBreak c then readQuoted double (folding.lineBreak c) mark.newLine rest
    else if double then
      if c == '"' then .ok { text := folding.close.text, mark := mark.next, rest }
      else if c == '\\' then
        match rest with
        | [] => .error (.at .unknownEscape mark)
        | e :: rest =>
          if isBreak e then readQuoted double folding.escapedBreak mark.newLine rest
          else
            match simpleEscape? e, escapeDigits? e with
            | some d, _ => readQuoted double (folding.char d) (mark.advance 2) rest
            | none, some count =>
              match Text.hexChar? count rest with
              | some d =>
                readQuoted double (folding.char d) (mark.advance (2 + count)) (rest.drop count)
              | none => .error (.at (codeProblem count rest) (mark.advance 2))
            | none, none => .error (.at .unknownEscape mark)
      else readQuoted double (folding.char c) mark.next rest
    else if c == '\'' then
      match rest with
      | '\'' :: rest => readQuoted double (folding.char c) (mark.advance 2) rest
      | rest => .ok { text := folding.close.text, mark := mark.next, rest }
    else readQuoted double (folding.char c) mark.next rest
  termination_by text.length
  decreasing_by all_goals simp only [List.length_cons, List.length_drop]; omega

/-- What becomes of the line breaks at the end of a block. -/
inductive Chomping where
  | strip | clip | keep
  deriving DecidableEq, Inhabited

/-- A block of lines while it is read; texts have their latest character first. -/
structure Block where
  literal : Bool
  chomping : Chomping := .clip
  /-- The indentation of the lines, once it is known. -/
  indent : Option Nat := none
  /-- The smallest indentation that lines may have. -/
  least : Nat
  /-- The widest indentation of the lines passed. -/
  widest : Nat := 0
  reversed : List Char := []
  /-- The break behind the last line. -/
  lineEnd : Option Char := none
  /-- The breaks of empty lines that follow. -/
  empties : List Char := []
  /-- Whether the last line starts with a blank. -/
  blankStart : Bool := false
  deriving Inhabited

namespace Block

/-- The indentation that the lines turn out to have. -/
def settled (block : Block) : Nat :=
  block.indent.getD (max block.widest (max block.least 1))

/-- Start a line with its first character. Where a folded block goes on and neither line starts with
a blank, the break between them is folded. -/
def startLine (block : Block) (c : Char) : Block :=
  let folds := !block.literal && block.lineEnd == some '\n' && !block.blankStart && !isBlank c
  let between :=
    if !folds then block.empties ++ block.lineEnd.toList
    else if block.empties.isEmpty then [' ']
    else block.empties
  { block with
    indent := some block.settled
    reversed := c :: (between ++ block.reversed)
    lineEnd := none
    empties := []
    blankStart := isBlank c }

def text (block : Block) : String :=
  let tail := match block.chomping with
    | .strip => []
    | .clip => block.lineEnd.toList
    | .keep => block.empties ++ block.lineEnd.toList
  String.ofList (tail ++ block.reversed).reverse

/-- Read the lines of a block; `inLine` tells whether a line has been started. -/
def read (block : Block) (inLine : Bool) (mark : Mark) : List Char → Except Fault ScalarRead
  | [] => .ok { text := block.text, mark, rest := [] }
  | c :: rest =>
    if inLine then
      if isBreak c then read { block with lineEnd := some c } false mark.newLine rest
      else read { block with reversed := c :: block.reversed } true mark.next rest
    else
      let within := block.indent.all fun indent => mark.column < indent
      if within && c == ' ' then
        read { block with widest := max block.widest (mark.column + 1) } false mark.next rest
      else if within && c == '\t' then .error (.at .tabInBlock mark)
      else if isBreak c then
        read { block with empties := c :: block.empties } false mark.newLine rest
      else if mark.column = block.settled then read (block.startLine c) true mark.next rest
      else .ok { text := block.text, mark, rest := c :: rest }

/-- The number that an indentation digit stands for. -/
def digit? (c : Char) : Option Nat :=
  if '1' ≤ c ∧ c ≤ '9' then some (c.toNat - 48) else none

def chomping? : Char → Option Chomping
  | '+' => some .keep
  | '-' => some .strip
  | _ => none

/-- Read the signs behind the one that announced the block: an indentation digit and a chomping sign
in either order. The answer holds the number of characters read. -/
def header (margin : Nat) (block : Block) (text : List Char) : Block × Nat :=
  let indented (n : Nat) : Block := { block with indent := some (margin - 1 + n) }
  match text with
  | [] => (block, 0)
  | a :: rest =>
    match digit? a, chomping? a, rest.head?.bind digit?, rest.head?.bind chomping? with
    | some n, _, _, some chomping => ({ indented n with chomping }, 2)
    | some n, _, _, none => (indented n, 1)
    | none, some chomping, some n, _ => ({ indented n with chomping }, 2)
    | none, some chomping, none, _ => ({ block with chomping }, 1)
    | none, none, _, _ => (block, 0)

end Block

/-- Drop blanks and a comment up to the end of the line, where nothing else may stand. -/
def lineRest (mark : Mark) (text : List Char) : Except Fault (List Char) :=
  let rest := text.dropWhile isBlank
  match rest with
  | [] => .ok []
  | '#' :: rest => .ok (rest.dropWhile fun c => !isBreak c)
  | c :: _ =>
    if isBreak c then .ok rest
    else .error (.at .expectedLineEnd (mark.advance (text.length - rest.length)))

/-- Read a block scalar below a margin. -/
def readBlock (literal : Bool) (margin : Nat) (mark : Mark) (text : List Char) :
    Except Fault ScalarRead := do
  let (block, count) := Block.header margin { literal, least := margin } text
  if (text.drop count).head? == some '0' && block.indent.isNone then
    throw (.at .zeroIndentation (mark.advance count))
  match ← lineRest (mark.advance count) (text.drop count) with
  | [] => return { text := "", mark, rest := [] }
  | _ :: rest => block.read false mark.newLine rest

end BatchFetch.Yaml
