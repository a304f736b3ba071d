import BatchFetch.Toml.Scalar

namespace BatchFetch.Toml

/-- Drop white space, line feeds and comments. -/
def skipSpace (inComment : Bool) : List Char → Except Problem (List Char)
  | [] => .ok []
  | c :: rest =>
    if c == '\n' then skipSpace false rest
    else if inComment then if isPrintable c then skipSpace true rest else .error .controlCharacter
    else if isBlank c then skipSpace false rest
    else if c == '#' then skipSpace true rest
    else .ok (c :: rest)

/-- Drop the rest of a line, on which only a comment may stand. -/
def endLine (inComment : Bool) : List Char → Except Problem (List Char)
  | [] => .ok []
  | c :: rest =>
    if c == '\n' then .ok rest
    else if inComment then if isPrintable c then endLine true rest else .error .controlCharacter
    else if isBlank c then endLine false rest
    else if c == '#' then endLine true rest
    else .error .expectedLineEnd

def isBareChar (c : Char) : Bool :=
  c.isAlphanum || c == '_' || c == '-'

def readKeyPart (text : List Char) : Except Problem (String × List Char) :=
  match text with
  | '"' :: rest => readBasic [] rest
  | '\'' :: rest => readLiteral [] rest
  | text =>
    let bare := text.takeWhile isBareChar
    if bare.isEmpty then .error .expectedKey else .ok (String.ofList bare, text.drop bare.length)

/-- Read a key behind some parts of it. -/
def readKeyFrom (path : List String) : Nat → List Char → Except Problem (DottedKey × List Char)
  | 0, _ => .error .expectedKey
  | fuel + 1, text => do
    let (part, rest) ← readKeyPart (text.dropWhile isBlank)
    match rest.dropWhile isBlank with
    | '.' :: rest => readKeyFrom (path ++ [part]) fuel rest
    | rest => return (⟨path, part⟩, rest)

def readKey (fuel : Nat) (text : List Char) : Except Problem (DottedKey × List Char) :=
  readKeyFrom [] fuel text

/-- The deepest nesting of arrays and tables that are spelled out. -/
def maxDepth : Nat := 80

mutual
def readValue (fuel level : Nat) (text : List Char) : Except Problem (Node × List Char) :=
  match fuel with
  | 0 => .error .expectedValue
  | fuel + 1 =>
    match text with
    | '"' :: '"' :: '"' :: rest =>
      (readMultiline true rest).map fun (text, rest) => (.leaf (.str text), rest)
    | '\'' :: '\'' :: '\'' :: rest =>
      (readMultiline false rest).map fun (text, rest) => (.leaf (.str text), rest)
    | '"' :: rest => (readBasic [] rest).map fun (text, rest) => (.leaf (.str text), rest)
    | '\'' :: rest => (readLiteral [] rest).map fun (text, rest) => (.leaf (.str text), rest)
    | '[' :: rest =>
      if maxDepth ≤ level then .error .tooDeep
      else (readItems fuel (level + 1) rest).map fun (items, rest) => (.array items, rest)
    | '\x7b' :: rest =>
      if maxDepth ≤ level then .error .tooDeep
      else do
        let (assignments, rest) ← readAssignments fuel (level + 1) rest
        return (.table .inlined (← Members.ofAssignments assignments), rest)
    | text => (readWord text).map fun (value, rest) => (.leaf value, rest)

/-- Read the items of an array and its end. -/
def readItems (fuel level : Nat) (text : List Char) : Except Problem (List Node × List Char) :=
  match fuel with
  | 0 => .error .expectedComma
  | fuel + 1 => do
    match ← skipSpace false text with
    | ']' :: rest => return ([], rest)
    | text =>
      let (item, rest) ← readValue fuel level text
      match ← skipSpace false rest with
      | ',' :: rest =>
        let (items, rest) ← readItems fuel level rest
        return (item :: items, rest)
      | ']' :: rest => return ([item], rest)
      | _ => .error .expectedComma

/-- Read the assignments of a table that is spelled out, and its end. -/
def readAssignments (fuel level : Nat) (text : List Char) :
    Except Problem (List Assignment × List Char) :=
  match fuel with
  | 0 => .error .expectedComma
  | fuel + 1 => do
    match ← skipSpace false text with
    | '\x7d' :: rest => return ([], rest)
    | text =>
      let (assignment, rest) ← readAssignment fuel level text
      match ← skipSpace false rest with
      | ',' :: rest =>
        let (assignments, rest) ← readAssignments fuel level rest
        return (assignment :: assignments, rest)
      | '\x7d' :: rest => return ([assignment], rest)
      | _ => .error .expectedComma

def readAssignment (fuel level : Nat) (text : List Char) :
    Except Problem (Assignment × List Char) :=
  match fuel with
  | 0 => .error .expectedKey
  | fuel + 1 => do
    let (key, rest) ← readKey fuel text
    match rest with
    | '=' :: rest =>
      let (value, rest) ← readValue fuel level (rest.dropWhile isBlank)
      return (⟨key, value⟩, rest)
    | _ => .error .expectedEquals
end

/-- Read one statement, at a character that is not white space. -/
def readStatement (fuel : Nat) (text : List Char) : Except Problem (Statement × List Char) :=
  match text with
  | '[' :: '[' :: rest => do
    let (key, rest) ← readKey fuel rest
    match rest with
    | ']' :: ']' :: rest => return (.element key, rest)
    | _ => .error .expectedHeaderEnd
  | '[' :: rest => do
    let (key, rest) ← readKey fuel rest
    match rest with
    | ']' :: rest => return (.table key, rest)
    | _ => .error .expectedHeaderEnd
  | text => (readAssignment fuel 0 text).map fun (assignment, rest) => (.assign assignment, rest)

def readStatements : Nat → List Char → Except Problem (List Statement)
  | 0, _ => .error .expectedKey
  | fuel + 1, text => do
    match ← skipSpace false text with
    | [] => return []
    | text =>
      let (statement, rest) ← readStatement (2 * text.length + 2) text
      let statements ← readStatements fuel (← endLine false rest)
      return statement :: statements

/-- Write every pair of a carriage return and a line feed as a line feed. -/
def normalised : List Char → List Char
  | '\r' :: '\n' :: rest => '\n' :: normalised rest
  | c :: rest => c :: normalised rest
  | [] => []

/-- The value of a text. Every statement takes up a character, so the length of the text bounds
their number. A byte order mark at the start is passed over. -/
def parse (text : String) : Except Problem Json := do
  let text := match text.toList with
    | '\uFEFF' :: rest => normalised rest
    | text => normalised text
  let statements ← readStatements (text.length + 1) text
  return (← Document.ofStatements statements).value

end BatchFetch.Toml
