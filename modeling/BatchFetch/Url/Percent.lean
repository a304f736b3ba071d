import BatchFetch.Text.Digits
import BatchFetch.Text.Utf8

namespace BatchFetch.Percent

def hexDigit (n : Nat) : Char :=
  if n < 10 then Char.ofNat (48 + n) else Char.ofNat (55 + n)

/-- The encoded form of a byte. -/
def byte (b : UInt8) : List Char :=
  ['%', hexDigit (b.toNat / 16), hexDigit (b.toNat % 16)]

/-- Encode the characters outside printable ASCII and those of a set. -/
def encode (set : List Char) (text : List Char) : List Char :=
  text.flatMap fun c =>
    if c.toNat < 32 || 126 < c.toNat || set.contains c then (String.utf8EncodeChar c).flatMap byte
    else [c]

def fragmentSet : List Char := [' ', '"', '<', '>', '\x60']
def querySet : List Char := [' ', '"', '#', '<', '>']
def specialQuerySet : List Char := '\'' :: querySet
def pathSet : List Char := '#' :: '?' :: '\x7b' :: '\x7d' :: fragmentSet
def userinfoSet : List Char :=
  '/' :: ':' :: ';' :: '=' :: '@' :: '[' :: '\\' :: ']' :: '^' :: '|' :: pathSet

/-- The bytes of a text in which escapes stand for bytes. -/
def decode : List Char → Bytes
  | '%' :: a :: b :: rest =>
    match Text.hexValue? a, Text.hexValue? b with
    | some high, some low => (high * 16 + low).toUInt8 :: decode rest
    | _, _ => String.utf8EncodeChar '%' ++ decode (a :: b :: rest)
  | c :: rest => String.utf8EncodeChar c ++ decode rest
  | [] => []

end BatchFetch.Percent
