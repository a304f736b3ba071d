import BatchFetch.Json.Value
import BatchFetch.Text.Digits
import BatchFetch.Text.Utf8

namespace BatchFetch.Json

inductive Cause where
  | eofInValue | eofInList | eofInObject | eofInString
  | expectedValue | expectedIdent | expectedColon | expectedListEnd | expectedObjectEnd
  | trailingComma | trailingCharacters | keyNotString
  | invalidNumber | numberOutOfRange
  | controlCharacter | invalidEscape | loneSurrogate | unfinishedSurrogate
  | recursionLimit
  deriving DecidableEq, Repr

def Cause.message : Cause → String
  | eofInValue => "EOF while parsing a value"
  | eofInList => "EOF while parsing a list"
  | eofInObject => "EOF while parsing an object"
  | eofInString => "EOF while parsing a string"
  | expectedValue => "expected value"
  | expectedIdent => "expected ident"
  | expectedColon => "expected `:`"
  | expectedListEnd => "expected `,` or `]`"
  | expectedObjectEnd => "expected `,` or `\x7d`"
  | trailingComma => "trailing comma"
  | trailingCharacters => "trailing characters"
  | keyNotString => "key must be a string"
  | invalidNumber => "invalid number"
  | numberOutOfRange => "number out of range"
  | controlCharacter => "control character (\\u0000-\\u001F) found while parsing a string"
  | invalidEscape => "invalid escape"
  | loneSurrogate => "lone leading surrogate in hex escape"
  | unfinishedSurrogate => "unexpected end of hex escape"
  | recursionLimit => "recursion limit exceeded"

/-- Whether the text could have been completed. -/
def Cause.isEof : Cause → Bool
  | eofInValue | eofInList | eofInObject | eofInString => true
  | _ => false

/-- A cause and the number of bytes behind the offending byte. -/
structure Fault where
  cause : Cause
  behind : Nat
  deriving DecidableEq

/-- The fault whose offending byte is the first one of `rest`, or the end of the text. -/
def Fault.at (cause : Cause) (rest : List Char) : Fault :=
  ⟨cause, Text.Utf8.size rest - 1⟩

/-- The fault that is noticed right in front of `rest`. -/
def Fault.before (cause : Cause) (rest : List Char) : Fault :=
  ⟨cause, Text.Utf8.size rest⟩

/-- The blanks of JSON. -/
def isSpace (c : Char) : Bool :=
  c = ' ' || c = '\t' || c = '\n' || c = '\r'

def skipSpace (cs : List Char) : List Char :=
  cs.dropWhile isSpace

/-- The rest of a literal name. -/
def literal : List Char → Json → List Char → Except Fault (Json × List Char)
  | [], value, rest => .ok (value, rest)
  | _ :: _, _, [] => .error (Fault.at .eofInValue [])
  | w :: word, value, c :: rest =>
    if w = c then literal word value rest else .error (Fault.at .expectedIdent (c :: rest))

def isDigit (c : Char) : Bool :=
  '0' ≤ c && c ≤ '9'

/-- Append digits to a significand for as long as it fits into 64 bits. The others are left. -/
def significand : Nat → List Char → Nat × List Char
  | n, [] => (n, [])
  | n, c :: rest =>
    let next := n * 10 + (c.toNat - 48)
    if 0xFFFFFFFFFFFFFFFF < next then (n, c :: rest) else significand next rest

/-- The digits of an exponent up to the one with which it leaves 31 bits. -/
def exponentDigits : Nat → List Char → Except (List Char) (Nat × List Char)
  | n, [] => .ok (n, [])
  | n, c :: rest =>
    if isDigit c then
      let next := n * 10 + (c.toNat - 48)
      if 2147483647 < next then .error rest else exponentDigits next rest
    else .ok (n, c :: rest)

/-- A number that is no 64-bit integer. -/
def real (negative : Bool) (digits : Nat) (e : Int) (rest : List Char) :
    Except Fault (Json × List Char) :=
  match Binary64.ofParts? negative digits e with
  | some x => .ok (.num (.real x), rest)
  | none => .error (Fault.before .numberOutOfRange rest)

/-- A number without fraction and exponent whose digits fit into 64 bits. The negative zero is a
binary64 number. -/
def integer (negative : Bool) (digits : Nat) (rest : List Char) : Except Fault (Json × List Char) :=
  let value : Int := if negative then -digits else digits
  if isWord value && !(negative && digits == 0) then .ok (.num (.int value), rest)
  else real negative digits 0 rest

/-- The exponent of a number whose digits are known; `rest` follows the letter `e`. -/
def exponentPart (negative : Bool) (digits : Nat) (e : Int) (rest : List Char) :
    Except Fault (Json × List Char) :=
  let (down, rest) :=
    match rest with
    | '+' :: rest => (false, rest)
    | '-' :: rest => (true, rest)
    | rest => (false, rest)
  match rest with
  | [] => .error (Fault.at .eofInValue [])
  | c :: _ =>
    if !isDigit c then .error (Fault.at .invalidNumber rest)
    else
      match exponentDigits 0 rest with
      | .ok (n, rest) => real negative digits (if down then e - n else e + n) rest
      | .error rest =>
        if digits ≠ 0 ∧ !down then .error (Fault.before .numberOutOfRange rest)
        else .ok (.num (.real (Binary64.zero negative)), rest.dropWhile isDigit)

/-- The end of a number after its whole and fractional digits. -/
def numberEnd (negative : Bool) (digits : Nat) (e : Int) :
    List Char → Except Fault (Json × List Char)
  | 'e' :: rest | 'E' :: rest => exponentPart negative digits e rest
  | rest => real negative digits e rest

/-- The fraction of a number behind its point. -/
def fractionPart (negative : Bool) (digits : Nat) (e : Int) (cs : List Char) :
    Except Fault (Json × List Char) :=
  let decimals := cs.takeWhile isDigit
  let rest := cs.dropWhile isDigit
  if decimals.isEmpty then
    .error (Fault.at (if rest.isEmpty then .eofInValue else .invalidNumber) rest)
  else
    let (digits, left) := significand digits decimals
    numberEnd negative digits (e - (decimals.length - left.length : Nat)) rest

/-- A number after its sign. Digits that its significand has no room for count as zeros before the
point and are dropped behind it. -/
def number (negative : Bool) (cs : List Char) : Except Fault (Json × List Char) :=
  let whole := cs.takeWhile isDigit
  let rest := cs.dropWhile isDigit
  match whole, cs with
  | [], [] => .error (Fault.at .eofInValue [])
  | [], cs => .error (Fault.at .invalidNumber cs)
  | '0' :: _ :: _, cs => .error (Fault.at .invalidNumber (cs.drop 1))
  | whole, _ =>
    let (digits, left) := significand 0 whole
    match rest with
    | '.' :: rest => fractionPart negative digits left.length rest
    | 'e' :: rest | 'E' :: rest => exponentPart negative digits left.length rest
    | rest =>
      if left.isEmpty then integer negative digits rest else real negative digits left.length rest

/-- Four hexadecimal digits. -/
def hexEscape (cs : List Char) : Except Fault (Nat × List Char) :=
  if Text.Utf8.size cs < 4 then .error (Fault.at .eofInString [])
  else
    match cs with
    | a :: b :: c :: d :: rest =>
      match Text.hexValue? a, Text.hexValue? b, Text.hexValue? c, Text.hexValue? d with
      | some a, some b, some c, some d => .ok (((a * 16 + b) * 16 + c) * 16 + d, rest)
      | _, _, _, _ => .error ⟨.invalidEscape, Text.Utf8.size cs - 4⟩
    | _ => .error ⟨.invalidEscape, Text.Utf8.size cs - 4⟩

/-- The character of a `\u` escape; a leading surrogate needs a trailing one behind it. -/
def unicodeEscape (cs : List Char) : Except Fault (Char × List Char) := do
  let (n, rest) ← hexEscape cs
  if 0xDC00 ≤ n ∧ n ≤ 0xDFFF then throw (Fault.before .loneSurrogate rest)
  else if n < 0xD800 ∨ 0xDBFF < n then return (Char.ofNat n, rest)
  else
    match rest with
    | [] => throw (Fault.at .eofInString [])
    | ['\\'] => throw (Fault.at .eofInString [])
    | '\\' :: 'u' :: rest =>
      let (low, rest) ← hexEscape rest
      if low < 0xDC00 ∨ 0xDFFF < low then throw (Fault.before .loneSurrogate rest)
      else return (Char.ofNat (0x10000 + (n - 0xD800) * 0x400 + (low - 0xDC00)), rest)
    | '\\' :: rest => throw (Fault.at .unfinishedSurrogate rest)
    | rest => throw (Fault.at .unfinishedSurrogate rest)

/-- The character that follows a backslash. -/
def escape : List Char → Except Fault (Char × List Char)
  | [] => .error (Fault.at .eofInString [])
  | '"' :: rest => .ok ('"', rest)
  | '\\' :: rest => .ok ('\\', rest)
  | '/' :: rest => .ok ('/', rest)
  | 'b' :: rest => .ok ('\x08', rest)
  | 'f' :: rest => .ok ('\x0c', rest)
  | 'n' :: rest => .ok ('\n', rest)
  | 'r' :: rest => .ok ('\r', rest)
  | 't' :: rest => .ok ('\t', rest)
  | 'u' :: rest => unicodeEscape rest
  | c :: rest => .error (Fault.at .invalidEscape (c :: rest))

/-- The characters of a string up to its closing quote. The fuel is the length of the text. -/
def stringBody : Nat → List Char → List Char → Except Fault (String × List Char)
  | 0, _, rest => .error (Fault.at .eofInString rest)
  | _ + 1, _, [] => .error (Fault.at .eofInString [])
  | fuel + 1, acc, c :: rest =>
    if c = '"' then .ok (String.ofList acc.reverse, rest)
    else if c = '\\' then do
      let (x, rest) ← escape rest
      stringBody fuel (x :: acc) rest
    else if c.toNat < 32 then .error (Fault.at .controlCharacter (c :: rest))
    else stringBody fuel (c :: acc) rest

/-- A string after its opening quote. -/
def string (cs : List Char) : Except Fault (String × List Char) :=
  stringBody (cs.length + 1) [] cs

/-- The items of an array after its opening bracket, each read by `item`. -/
def items (item : List Char → Except Fault (Json × List Char)) :
    Nat → Bool → List Json → List Char → Except Fault (List Json × List Char)
  | 0, _, _, rest => .error (Fault.at .eofInList rest)
  | fuel + 1, isFirst, acc, cs =>
    match skipSpace cs with
    | [] => .error (Fault.at .eofInList [])
    | ']' :: rest => .ok (acc.reverse, rest)
    | c :: rest =>
      if isFirst then do
        let (x, rest) ← item (c :: rest)
        items item fuel false (x :: acc) rest
      else if c ≠ ',' then .error (Fault.at .expectedListEnd (c :: rest))
      else
        match skipSpace rest with
        | [] => .error (Fault.at .eofInValue [])
        | ']' :: rest => .error (Fault.at .trailingComma (']' :: rest))
        | rest => do
          let (x, rest) ← item rest
          items item fuel false (x :: acc) rest

/-- The colon between a key and its value. -/
def colon (cs : List Char) : Except Fault (Unit × List Char) :=
  match skipSpace cs with
  | [] => .error (Fault.at .eofInObject [])
  | ':' :: rest => .ok ((), rest)
  | rest => .error (Fault.at .expectedColon rest)

/-- What stands in front of the next member of an object: its key, or the closing brace. -/
def memberKey (isFirst : Bool) (cs : List Char) : Except Fault (Option String × List Char) :=
  match skipSpace cs with
  | [] => .error (Fault.at .eofInObject [])
  | '\x7d' :: rest => .ok (none, rest)
  | c :: rest =>
    let rest? : Except Fault (List Char) :=
      if isFirst then .ok (c :: rest)
      else if c = ',' then .ok (skipSpace rest)
      else .error (Fault.at .expectedObjectEnd (c :: rest))
    match rest? with
    | .error fault => .error fault
    | .ok ('"' :: rest) => (string rest).map fun (key, rest) => (some key, rest)
    | .ok ('\x7d' :: rest) => .error (Fault.at .trailingComma ('\x7d' :: rest))
    | .ok [] => .error (Fault.at .eofInValue [])
    | .ok rest => .error (Fault.at .keyNotString rest)

/-- The members of an object after its opening brace, their values read by `item`. -/
def members (item : List Char → Except Fault (Json × List Char)) :
    Nat → Bool → List (String × Json) → List Char → Except Fault (List (String × Json) × List Char)
  | 0, _, _, rest => .error (Fault.at .eofInObject rest)
  | fuel + 1, isFirst, acc, cs => do
    match ← memberKey isFirst cs with
    | (none, rest) => return (acc.reverse, rest)
    | (some key, rest) =>
      let (_, rest) ← colon rest
      let (x, rest) ← item rest
      members item fuel false ((key, x) :: acc) rest

/-- A value that may open `depth` nested arrays and objects. -/
def value : Nat → List Char → Except Fault (Json × List Char)
  | depth, cs =>
    match skipSpace cs with
    | [] => .error (Fault.at .eofInValue [])
    | 'n' :: rest => literal "ull".toList .null rest
    | 't' :: rest => literal "rue".toList (.bool true) rest
    | 'f' :: rest => literal "alse".toList (.bool false) rest
    | '-' :: rest => number true rest
    | '"' :: rest => (string rest).map fun (s, rest) => (.str s, rest)
    | '[' :: rest =>
      match depth with
      | 0 => .error (Fault.at .recursionLimit ('[' :: rest))
      | depth + 1 =>
        (items (value depth) (rest.length + 1) true [] rest).map fun (xs, rest) => (.arr xs, rest)
    | '\x7b' :: rest =>
      match depth with
      | 0 => .error (Fault.at .recursionLimit ('\x7b' :: rest))
      | depth + 1 =>
        (members (value depth) (rest.length + 1) true [] rest).map fun (xs, rest) =>
          (ofMembers xs, rest)
    | c :: rest =>
      if isDigit c then number false (c :: rest) else .error (Fault.at .expectedValue (c :: rest))

/-- The nesting of arrays and objects that is accepted. -/
def maxDepth : Nat := 127

/-- Nothing but blanks may follow a value. -/
def atEnd (rest : List Char) : Except Fault Unit :=
  match skipSpace rest with
  | [] => .ok ()
  | rest => .error (Fault.at .trailingCharacters rest)

/-- Read a whole text. -/
def readFault (cs : List Char) : Except Fault Json := do
  let (x, rest) ← value maxDepth cs
  atEnd rest
  return x

/-- The line and the column of the byte with the given count of bytes up to and including it:
columns count bytes since the last line feed. -/
def place : Nat → Nat → Nat → List Char → Nat × Nat
  | line, column, _, [] => (line, column)
  | line, column, count, c :: rest =>
    if count = 0 then (line, column)
    else if c = '\n' then place (line + 1) 0 (count - 1) rest
    else place line (column + min count c.utf8Size) (count - c.utf8Size) rest

/-- The text of a fault in the text it was found in. -/
def Fault.message (fault : Fault) (cs : List Char) : String :=
  let (line, column) := place 1 0 (Text.Utf8.size cs - fault.behind) cs
  s!"{fault.cause.message} at line {line} column {column}"

/-- Read a whole text; the error is its message. -/
def parse (s : String) : Except String Json :=
  (readFault s.toList).mapError (·.message s.toList)

end BatchFetch.Json
