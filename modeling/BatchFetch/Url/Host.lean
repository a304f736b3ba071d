import BatchFetch.Url.Naming
import BatchFetch.Url.Percent

namespace BatchFetch

inductive UrlError where
  | emptyHost | badName | badPort | badIpv4 | badIpv6 | badHostCharacter
  | noBase | opaqueBase
  deriving DecidableEq, Repr, Inhabited

def UrlError.message : UrlError → String
  | emptyHost => "empty host"
  | badName => "invalid international domain name"
  | badPort => "invalid port number"
  | badIpv4 => "invalid IPv4 address"
  | badIpv6 => "invalid IPv6 address"
  | badHostCharacter => "invalid domain character"
  | noBase => "relative URL without a base"
  | opaqueBase => "relative URL with a cannot-be-a-base base"

inductive Host where
  | name (text : String)
  | ipv4 (address : Nat)
  | ipv6 (groups : List Nat)
  deriving DecidableEq, Repr, Inhabited

namespace Host

/-- What a part of a name says as a number: nothing, a number beyond 32 bits, or a number. -/
inductive Part where
  | notNumber | tooLarge | number (n : Nat)

def digitsIn (base : Nat) (text : List Char) : Part :=
  match Text.number? base text with
  | none => .notNumber
  | some n => if n < UInt32.size then .number n else .tooLarge

/-- A part in hexadecimal with `0x`, in octal with a leading zero, or in decimal. -/
def part : List Char → Part
  | [] => .notNumber
  | ['0', 'x'] | ['0', 'X'] => .number 0
  | '0' :: 'x' :: rest | '0' :: 'X' :: rest => digitsIn 16 rest
  | '0' :: c :: rest => digitsIn 8 (c :: rest)
  | text => digitsIn 10 text

/-- The parts of a name, without an empty last one. -/
def parts (name : List Char) : List (List Char) :=
  let all := Text.pieces '.' name
  if all.getLast? = some [] then all.dropLast else all

/-- Whether the last part of a name is a number. -/
def endsInNumber (name : List Char) : Bool :=
  match (parts name).getLast? with
  | none | some [] => false
  | some last =>
    last.all Char.isDigit ||
      match part last with
      | .notNumber => false
      | _ => true

def partNumber (text : List Char) : Option Nat :=
  match part text with
  | .number n => some n
  | _ => none

/-- An IPv4 address of up to four numbers; the last one fills the bytes that are left. -/
def parseIpv4 (name : List Char) : Except UrlError Nat :=
  let ps := parts name
  match ps.mapM partNumber with
  | none => .error .badIpv4
  | some numbers =>
    match numbers.reverse with
    | [] => .error .badIpv4
    | last :: lead =>
      if 4 < numbers.length || Nat.pow 256 (4 - lead.length) ≤ last || lead.any (255 < ·) then
        .error .badIpv4
      else
        let high := lead.reverse.foldl (fun n p => n * 256 + p) 0
        .ok (high * Nat.pow 256 (4 - lead.length) + last)

/-- One group: up to four hexadecimal digits. -/
def group? (text : List Char) : Option Nat :=
  if text.isEmpty || 4 < text.length then none
  else Text.number? 16 text

/-- A decimal byte without leading zeros. -/
def byte? (text : List Char) : Option Nat :=
  if 3 < text.length || (text.head? == some '0' && text.length ≠ 1) then none
  else (Text.number? 10 text).bind fun n => if n ≤ 255 then some n else none

/-- The last part of an address: one group, or an IPv4 address that makes two. -/
def lastGroups? (text : List Char) : Option (List Nat) :=
  match (Text.pieces '.' text).mapM byte? with
  | some [a, b, c, d] => some [a * 256 + b, c * 256 + d]
  | _ => (group? text).map ([·])

/-- The groups between colons; an IPv4 address may be the last one where `mayEnd` allows it. -/
def groups? (mayEnd : Bool) (text : List Char) : Option (List Nat) :=
  if text.isEmpty then some []
  else
    let ps := Text.pieces ':' text
    match ps.dropLast.mapM group?, ps.getLast? with
    | some lead, some last =>
      (if mayEnd then lastGroups? last else (group? last).map ([·])).map (lead ++ ·)
    | _, _ => none

/-- The parts before and after the first double colon. -/
def cutDouble : List Char → Option (List Char × List Char)
  | ':' :: ':' :: rest => some ([], rest)
  | c :: rest => (cutDouble rest).map fun (before, after) => (c :: before, after)
  | [] => none

def parseIpv6 (text : List Char) : Except UrlError (List Nat) :=
  let found : Option (List Nat) :=
    match cutDouble text with
    | none => (groups? true text).bind fun gs => if gs.length = 8 then some gs else none
    | some (before, after) =>
      match groups? false before, groups? true after with
      | some first, some last =>
        if first.length + last.length ≤ 7 then
          some (first ++ List.replicate (8 - first.length - last.length) 0 ++ last)
        else none
      | _, _ => none
  match found with
  | some gs => .ok gs
  | none => .error .badIpv6

/-- The start and the length of the longest run of zeros, the first of equal ones. -/
def zeroRun : Nat → Nat → Nat → Nat × Nat → List Nat → Nat × Nat
  | _, _, _, best, [] => best
  | index, start, length, best, g :: rest =>
    if g = 0 then
      let start := if length = 0 then index else start
      let length := length + 1
      zeroRun (index + 1) start length (if best.2 < length then (start, length) else best) rest
    else zeroRun (index + 1) 0 0 best rest

def groupText (g : Nat) : String :=
  String.ofList (Nat.toDigits 16 g)

def ipv6Text (gs : List Nat) : String :=
  let (start, length) := zeroRun 0 0 0 (0, 0) gs
  let joined (gs : List Nat) : String := ":".intercalate (gs.map groupText)
  if length < 2 then joined gs
  else joined (gs.take start) ++ "::" ++ joined (gs.drop (start + length))

def parse (naming : Naming) (text : List Char) : Except UrlError Host :=
  match text with
  | [] => .error .emptyHost
  | '[' :: rest =>
    if rest.getLast? = some ']' then (parseIpv6 rest.dropLast).map .ipv6 else .error .badIpv6
  | text =>
    match (Text.Utf8.decode? (Percent.decode text)).bind naming.asciiName? with
    | none => .error .badName
    | some [] => .error .emptyHost
    | some ascii =>
      if endsInNumber ascii then (parseIpv4 ascii).map .ipv4 else .ok (.name (String.ofList ascii))

/-- The host of a URL with another scheme; it may be empty. -/
def parseOpaque (text : List Char) : Except UrlError Host :=
  match text with
  | '[' :: rest =>
    if rest.getLast? = some ']' then (parseIpv6 rest.dropLast).map .ipv6 else .error .badIpv6
  | text =>
    if text.any fun c => c == '\x00' || c == ' ' || "#/:<>?@[\\]^|".toList.contains c then
      .error .badHostCharacter
    else .ok (.name (String.ofList (Percent.encode [] text)))

def text : Host → String
  | name text => text
  | ipv4 a =>
    ".".intercalate
      ([a / 16777216, a / 65536 % 256, a / 256 % 256, a % 256].map fun n => toString n)
  | ipv6 groups => "[" ++ ipv6Text groups ++ "]"

end Host
end BatchFetch
