import BatchFetch.Text.Cut
import BatchFetch.Text.Utf8

namespace BatchFetch.Charset

inductive Encoding where
  | utf8 | utf16le | utf16be | windows1252
  deriving DecidableEq, Repr

/-- The characters of the bytes 0x80 to 0x9F. -/
def windows1252High : List Nat :=
  [0x20AC, 0x81, 0x201A, 0x0192, 0x201E, 0x2026, 0x2020, 0x2021, 0x02C6, 0x2030, 0x0160, 0x2039,
    0x0152, 0x8D, 0x017D, 0x8F, 0x90, 0x2018, 0x2019, 0x201C, 0x201D, 0x2022, 0x2013, 0x2014,
    0x02DC, 0x2122, 0x0161, 0x203A, 0x0153, 0x9D, 0x017E, 0x0178]

def windows1252Char (b : UInt8) : Char :=
  if 0x80 ≤ b.toNat ∧ b.toNat ≤ 0x9F then Char.ofNat (windows1252High.getD (b.toNat - 0x80) 0xFFFD)
  else Char.ofNat b.toNat

/-- The 16-bit units of a byte sequence, and whether a byte is left over. -/
def units (bigEndian : Bool) : Bytes → List Nat × Bool
  | a :: b :: rest =>
    let (more, odd) := units bigEndian rest
    ((if bigEndian then a.toNat * 256 + b.toNat else b.toNat * 256 + a.toNat) :: more, odd)
  | [_] => ([], true)
  | [] => ([], false)

/-- The characters of UTF-16 units; a surrogate without a partner becomes U+FFFD. -/
def unitChars : List Nat → List Char
  | high :: low :: rest =>
    if 0xD800 ≤ high ∧ high ≤ 0xDBFF then
      if 0xDC00 ≤ low ∧ low ≤ 0xDFFF then
        Char.ofNat (0x10000 + (high - 0xD800) * 0x400 + (low - 0xDC00)) :: unitChars rest
      else '\uFFFD' :: unitChars (low :: rest)
    else if 0xDC00 ≤ high ∧ high ≤ 0xDFFF then '\uFFFD' :: unitChars (low :: rest)
    else Char.ofNat high :: unitChars (low :: rest)
  | [unit] => [if 0xD800 ≤ unit ∧ unit ≤ 0xDFFF then '\uFFFD' else Char.ofNat unit]
  | [] => []

def utf16Chars (bigEndian : Bool) (bytes : Bytes) : List Char :=
  let (us, odd) := units bigEndian bytes
  unitChars us ++ (if odd then ['\uFFFD'] else [])

def Encoding.decode (encoding : Encoding) (bytes : Bytes) : List Char :=
  match encoding with
  | utf8 => Text.Utf8.decodeLossy bytes
  | utf16le => utf16Chars false bytes
  | utf16be => utf16Chars true bytes
  | windows1252 => bytes.map windows1252Char

/-- The encoding that a label names. -/
def Encoding.ofLabel (label : String) : Encoding :=
  if ["utf-16", "utf-16le", "unicode", "ucs-2", "iso-10646-ucs-2", "csunicode",
      "unicodefeff"].contains label then utf16le
  else if ["utf-16be", "unicodefffe"].contains label then utf16be
  else if ["iso-8859-1", "iso8859-1", "iso88591", "iso_8859-1", "iso_8859-1:1987", "latin1", "l1",
      "ascii", "us-ascii", "ansi_x3.4-1968", "cp1252", "cp819", "csisolatin1", "ibm819",
      "iso-ir-100", "windows-1252", "x-cp1252"].contains label then windows1252
  else utf8

/-- The value of the charset parameter of a content type, in lower case and without quotes. -/
def label? (contentType : String) : Option String :=
  let parameters := (((Text.asciiLower contentType).splitOn ";").drop 1).map String.toList
  let isSpace (c : Char) : Bool := c == ' ' || c == '\t'
  parameters.findSome? fun text =>
    match (text.dropWhile isSpace) with
    | 'c' :: 'h' :: 'a' :: 'r' :: 's' :: 'e' :: 't' :: '=' :: value =>
      some (String.ofList ((value.filter (· ≠ '"')).reverse.dropWhile isSpace).reverse)
    | _ => none

/-- Decode a body that came with a content type. -/
def decode (contentType : Option String) (body : Bytes) : List Char :=
  match body with
  | 0xEF :: 0xBB :: 0xBF :: rest => Encoding.utf8.decode rest
  | 0xFF :: 0xFE :: rest => Encoding.utf16le.decode rest
  | 0xFE :: 0xFF :: rest => Encoding.utf16be.decode rest
  | body => (((contentType.bind label?).map Encoding.ofLabel).getD .utf8).decode body

end BatchFetch.Charset
