import BatchFetch.Json.Value

namespace BatchFetch.Json

/-- A hexadecimal digit in lower case. -/
def hexDigit (n : Nat) : Char :=
  if n < 10 then Char.ofNat (48 + n) else Char.ofNat (87 + n)

/-- How one character stands inside a string literal. -/
def escaped (c : Char) : List Char :=
  if c = '"' then ['\\', '"']
  else if c = '\\' then ['\\', '\\']
  else if c = '\n' then ['\\', 'n']
  else if c = '\r' then ['\\', 'r']
  else if c = '\t' then ['\\', 't']
  else if c.toNat = 8 then ['\\', 'b']
  else if c.toNat = 12 then ['\\', 'f']
  else if c.toNat < 32 then ['\\', 'u', '0', '0', hexDigit (c.toNat / 16), hexDigit (c.toNat % 16)]
  else [c]

def quoted (s : String) : List Char :=
  '"' :: s.toList.flatMap escaped ++ ['"']

/-- The digits of a decimal. Magnitudes from `1e-5` up to `1e16` are written positionally and with
at least one decimal place, the others with an exponent that carries its sign. -/
def decimalText (d : Binary64.Decimal) : List Char :=
  let digits := Nat.toDigits 10 d.digits
  let count : Int := digits.length
  let point := count + d.exponent
  if d.digits = 0 then ['0', '.', '0']
  else if 0 < point ∧ point ≤ 16 then
    let whole := digits.take point.toNat ++ List.replicate (point - count).toNat '0'
    let decimals := digits.drop point.toNat
    whole ++ '.' :: (if decimals.isEmpty then ['0'] else decimals)
  else if -5 < point ∧ point ≤ 0 then
    '0' :: '.' :: List.replicate point.natAbs '0' ++ digits
  else
    let e := point - 1
    let mantissa := digits.take 1 ++
      (if digits.length = 1 then [] else '.' :: digits.drop 1)
    mantissa ++ 'e' :: (if e < 0 then '-' else '+') :: Nat.toDigits 10 e.natAbs

def Number.text : Number → List Char
  | int n => if n < 0 then '-' :: Nat.toDigits 10 n.natAbs else Nat.toDigits 10 n.natAbs
  | real x => (if x.isNegative then ['-'] else []) ++ decimalText x.shortest

mutual
/-- The compact text of a value. -/
def text : Json → List Char
  | null => "null".toList
  | bool true => "true".toList
  | bool false => "false".toList
  | num n => n.text
  | str s => quoted s
  | arr [] => ['[', ']']
  | arr (x :: items) => '[' :: text x ++ textMore items
  | obj [] => ['\x7b', '\x7d']
  | obj ((key, x) :: members) => '\x7b' :: quoted key ++ ':' :: text x ++ textMembers members

/-- The items after the first one, and the closing bracket. -/
def textMore : List Json → List Char
  | [] => [']']
  | x :: items => ',' :: text x ++ textMore items

/-- The members after the first one, and the closing brace. -/
def textMembers : List (String × Json) → List Char
  | [] => ['\x7d']
  | (key, x) :: members => ',' :: quoted key ++ ':' :: text x ++ textMembers members
end

def render (value : Json) : String :=
  String.ofList value.text

end BatchFetch.Json
