import BatchFetch.Json.Value
import BatchFetch.Text.Cut
import BatchFetch.Text.Digits
import BatchFetch.Toml.Table

namespace BatchFetch.Toml

/-- The characters that may stand in strings and comments, besides line feeds. -/
def isPrintable (c : Char) : Bool :=
  c == '\t' || (0x20 ≤ c.toNat && c.toNat ≠ 0x7F)

def isBlank (c : Char) : Bool :=
  c == ' ' || c == '\t'

def simpleEscape? : Char → Option Char
  | 'b' => some '\x08'
  | 't' => some '\t'
  | 'n' => some '\n'
  | 'f' => some '\x0c'
  | 'r' => some '\r'
  | 'e' => some '\x1b'
  | '"' => some '"'
  | '\\' => some '\\'
  | _ => none

def escapeDigits? : Char → Option Nat
  | 'x' => some 2
  | 'u' => some 4
  | 'U' => some 8
  | _ => none

/-- The character of an escape behind its backslash, and the number of characters that write it. -/
def escape? (text : List Char) : Option (Char × Nat) :=
  match text with
  | [] => none
  | e :: rest =>
    match simpleEscape? e, escapeDigits? e with
    | some c, _ => some (c, 1)
    | none, some count => (Text.hexChar? count rest).map fun c => (c, count + 1)
    | none, none => none

/-- The text of a string whose latest character is first. -/
def unreversed (reversed : List Char) : String :=
  String.ofList reversed.reverse

/-- Read a string with escapes up to its closing quote. -/
def readBasic (reversed : List Char) (text : List Char) : Except Problem (String × List Char) :=
  match text with
  | [] => .error .unclosedString
  | c :: rest =>
    if c == '"' then .ok (unreversed reversed, rest)
    else if c == '\\' then
      match escape? rest with
      | some (d, count) => readBasic (d :: reversed) (rest.drop count)
      | none => .error .badEscape
    else if isPrintable c then readBasic (c :: reversed) rest
    else .error .controlCharacter
  termination_by text.length
  decreasing_by all_goals simp only [List.length_cons, List.length_drop]; omega

/-- Read a string without escapes up to its closing quote. -/
def readLiteral (reversed : List Char) : List Char → Except Problem (String × List Char)
  | [] => .error .unclosedString
  | c :: rest =>
    if c == '\'' then .ok (unreversed reversed, rest)
    else if isPrintable c then readLiteral (c :: reversed) rest
    else .error .controlCharacter

/-- Where a string of several lines ends: behind three quotes. Up to two more quotes in front of
them belong to the text. The answer holds the number of those and what follows the string. -/
def closing? (quote : Char) (text : List Char) : Option (Nat × List Char) :=
  let quotes := (text.takeWhile (· == quote)).length
  if quotes < 3 then none else some (min (quotes - 3) 2, text.drop (min quotes 5))

/-- What follows a backslash at the end of a line: the next character that is no white space. -/
def lineContinuation? (text : List Char) : Option (List Char) :=
  let rest := text.dropWhile isBlank
  match rest with
  | '\n' :: _ => some (rest.dropWhile fun c => isBlank c || c == '\n')
  | _ => none

theorem length_dropWhile_le {α : Type} (p : α → Bool) (list : List α) :
    (list.dropWhile p).length ≤ list.length :=
  (List.dropWhile_sublist p).length_le

theorem length_of_lineContinuation? {text rest : List Char}
    (h : lineContinuation? text = some rest) :
    rest.length ≤ text.length := by
  unfold lineContinuation? at h
  simp only at h
  split at h
  · rename_i found
    cases h
    exact Nat.le_trans (length_dropWhile_le _ _) (length_dropWhile_le _ _)
  · cases h

/-- Read a string of several lines, with escapes where `basic` allows them. -/
def readLines (basic : Bool) (reversed : List Char) (text : List Char) :
    Except Problem (String × List Char) :=
  let quote := if basic then '"' else '\''
  match closing? quote text, text with
  | some (extra, rest), _ => .ok (unreversed (List.replicate extra quote ++ reversed), rest)
  | none, [] => .error .unclosedString
  | none, c :: rest =>
    if basic && c == '\\' then
      match _continued : lineContinuation? rest with
      | some rest => readLines basic reversed rest
      | none =>
        match escape? rest with
        | some (d, count) => readLines basic (d :: reversed) (rest.drop count)
        | none => .error .badEscape
    else if c == '\n' || isPrintable c then readLines basic (c :: reversed) rest
    else .error .controlCharacter
  termination_by text.length
  decreasing_by
    · exact Nat.lt_succ_of_le (length_of_lineContinuation? _continued)
    · simp only [List.length_cons, List.length_drop]; omega
    · simp

/-- Read a string behind the line feed that may follow three opening quotes. -/
def readMultiline (basic : Bool) (text : List Char) : Except Problem (String × List Char) :=
  match text with
  | '\n' :: rest => readLines basic [] rest
  | text => readLines basic [] text

/-- The digits of a number, which underscores may part. -/
def digitGroups? (text : List Char) : Option (List Char) :=
  let groups := Text.pieces '_' text
  if groups.any (·.isEmpty) then none else some groups.flatten

/-- An integer of at most 64 bits. -/
def word? (n : Int) : Option Json :=
  if Json.isWord n then some (.num (.int n)) else none

def basedNumber? (base : Nat) (text : List Char) : Option Json :=
  ((digitGroups? text).bind (Text.number? base)).bind fun n => word? n

/-- The exponent of a number behind its letter. -/
def exponent? (text : List Char) : Option Int :=
  let (negative, digits) := Text.cutSign text
  ((digitGroups? digits).bind (Text.number? 10)).map fun n => if negative then -(n : Int) else n

/-- The digits in front of the point; they do not start with a zero unless that is all. -/
def wholeDigits? (text : List Char) : Option (List Char) :=
  (digitGroups? text).bind fun digits =>
    if digits.head? == some '0' && digits.length ≠ 1 then none else some digits

/-- A decimal number without its sign. -/
def decimalNumber? (negative : Bool) (text : List Char) : Option Json :=
  let mantissa := text.takeWhile fun c => c ≠ 'e' && c ≠ 'E'
  let power := text.drop mantissa.length
  match Text.cutFirst '.' mantissa, power with
  | none, [] =>
    ((wholeDigits? mantissa).bind (Text.number? 10)).bind fun n =>
      word? (if negative then -(n : Int) else n)
  | point, power => do
    let whole ← wholeDigits? ((point.map (·.1)).getD mantissa)
    let fraction ← match point with
      | none => some []
      | some (_, fraction) => digitGroups? fraction
    let e ← match power with
      | [] => some 0
      | _ :: digits => exponent? digits
    let digits ← Text.number? 10 (whole ++ fraction)
    let x ← Binary64.ofDecimal? negative digits (e - fraction.length)
    return .num (.real x)

/-- The value of a word: a truth value or a number. There is no value for infinities and for what is
not a number. -/
def wordValue? (text : List Char) : Option Json :=
  match text with
  | '0' :: 'x' :: digits => basedNumber? 16 digits
  | '0' :: 'o' :: digits => basedNumber? 8 digits
  | '0' :: 'b' :: digits => basedNumber? 2 digits
  | text =>
    let (negative, unsigned) := Text.cutSign text
    match String.ofList text, String.ofList unsigned with
    | "true", _ => some (.bool true)
    | "false", _ => some (.bool false)
    | _, "inf" | _, "nan" => some .null
    | _, _ => decimalNumber? negative unsigned

def isLeapYear (year : Nat) : Bool :=
  year % 4 == 0 && (year % 100 ≠ 0 || year % 400 == 0)

def daysIn (year month : Nat) : Nat :=
  match month with
  | 2 => if isLeapYear year then 29 else 28
  | 4 | 6 | 9 | 11 => 30
  | _ => 31

/-- A number of a fixed width within bounds, and what follows it. -/
def field? (width low high : Nat) (text : List Char) : Option (Nat × List Char) :=
  let digits := text.take width
  if digits.length ≠ width then none
  else
    (Text.number? 10 digits).bind fun n =>
      if low ≤ n && n ≤ high then some (n, text.drop width) else none

/-- What follows one of some characters. -/
def after? (marks : List Char) : List Char → Option (List Char)
  | c :: rest => if marks.contains c then some rest else none
  | [] => none

/-- A number with at least two digits. -/
def twoDigits (n : Nat) : String :=
  if n < 10 then s!"0{n}" else toString n

/-- A number with at least four digits. -/
def fourDigits (n : Nat) : String :=
  String.ofList (List.replicate (4 - (toString n).length) '0') ++ toString n

/-- A date in its written form, and what follows it. -/
def date? (text : List Char) : Option (String × List Char) := do
  let (year, rest) ← field? 4 0 9999 text
  let (month, rest) ← field? 2 1 12 (← after? ['-'] rest)
  let (day, rest) ← field? 2 1 (daysIn year month) (← after? ['-'] rest)
  return (s!"{fourDigits year}-{twoDigits month}-{twoDigits day}", rest)

/-- The part of a second in its written form: up to nine digits, without zeros at the end. -/
def fraction (digits : List Char) : String :=
  match ((digits.take 9).reverse.dropWhile (· == '0')).reverse with
  | [] => ""
  | kept => "." ++ String.ofList kept

/-- Seconds in their written form, and what follows them. They may be left out. -/
def seconds? (text : List Char) : Option (String × List Char) :=
  match after? [':'] text with
  | none => some ("00", text)
  | some rest => do
    let (second, rest) ← field? 2 0 60 rest
    match after? ['.'] rest with
    | none => return (twoDigits second, rest)
    | some rest =>
      let digits := rest.takeWhile Char.isDigit
      if digits.isEmpty then none
      else return (twoDigits second ++ fraction digits, rest.drop digits.length)

/-- A time of day in its written form, and what follows it. -/
def time? (text : List Char) : Option (String × List Char) := do
  let (hour, rest) ← field? 2 0 23 text
  let (minute, rest) ← field? 2 0 59 (← after? [':'] rest)
  let (second, rest) ← seconds? rest
  return (s!"{twoDigits hour}:{twoDigits minute}:{second}", rest)

/-- The offset at the end of a time in its written form; an offset of nothing is positive. -/
def offset? (text : List Char) : Option String :=
  match text with
  | [] => some ""
  | ['Z'] | ['z'] => some "Z"
  | sign :: rest => do
    if sign ≠ '+' && sign ≠ '-' then none
    let (hour, rest) ← field? 2 0 24 rest
    let (minute, rest) ← field? 2 0 59 (← after? [':'] rest)
    let minutes := hour * 60 + minute
    if !rest.isEmpty || 24 * 60 < minutes then none
    return (if sign == '-' && minutes ≠ 0 then "-" else "+") ++ twoDigits hour ++ ":" ++
      twoDigits minute

/-- A time of day with the offset that may follow it. -/
def timeWithOffset? (text : List Char) : Option String := do
  let (time, rest) ← time? text
  return time ++ (← offset? rest)

/-- The written form of a date, a time, or both. -/
def datetime? (text : List Char) : Option String :=
  match date? text with
  | some (date, []) => some date
  | some (date, mark :: rest) =>
    if mark == 'T' || mark == 't' || mark == ' ' then
      (timeWithOffset? rest).map fun time => s!"{date}T{time}"
    else none
  | none =>
    match time? text with
    | some (time, []) => some time
    | _ => none

/-- The value that stands for a date or a time. -/
def datetimeValue (text : String) : Json :=
  .obj [("$__toml_private_datetime", .str text)]

/-- The characters of numbers, truth values, dates and times. -/
def isWordChar (c : Char) : Bool :=
  c.isAlphanum || "+-_.:".toList.contains c

/-- Read a scalar that is not a string. A blank may part a date from a time. -/
def readWord (text : List Char) : Except Problem (Json × List Char) :=
  let word := text.takeWhile isWordChar
  let rest := text.drop word.length
  let time := (rest.drop 1).takeWhile isWordChar
  let longer := word ++ [' '] ++ time
  match wordValue? word, datetime? word with
  | some value, _ => .ok (value, rest)
  | none, some short =>
    if rest.head? == some ' ' then
      match datetime? longer with
      | some long => .ok (datetimeValue long, rest.drop (time.length + 1))
      | none => .ok (datetimeValue short, rest)
    else .ok (datetimeValue short, rest)
  | none, none => .error (if word.isEmpty then .expectedValue else .badNumber)

end BatchFetch.Toml
