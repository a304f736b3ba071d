import BatchFetch.Text.Blank
import BatchFetch.Text.Cut
import BatchFetch.Url.Punycode

namespace BatchFetch.Host

/-- Characters that no name may hold. -/
def isDenied (c : Char) : Bool :=
  c.toNat ≤ 32 || c.toNat == 127 || Text.isBlank c || c == '\uFFFD' ||
    "%#/:<>?@[\\]^|".toList.contains c

/-- How a name that is not plain ASCII is put into ASCII, if it can be. -/
abbrev Naming := List Char → Option (List Char)

/-- Whether a name in lower case has only ASCII characters and no label in Punycode. -/
def isPlainName (name : List Char) : Bool :=
  name.all (·.toNat < 128) &&
    (Text.pieces '.' name).all fun label => (Text.dropWord? "xn--".toList label).isNone

namespace Naming

/-- The ASCII form of a name. -/
def asciiName? (naming : Naming) (text : List Char) : Option (List Char) :=
  let lower := text.map Char.toLower
  (if isPlainName lower then some lower else naming text).filter fun name => !name.any isDenied

/-- The lower-case form of a letter of the Latin, Greek and Cyrillic blocks. -/
def lowerPoint (n : Nat) : Nat :=
  if 0x41 ≤ n ∧ n ≤ 0x5A then n + 32
  else if n < 0xC0 then n
  else if n ≤ 0xDE then (if n = 0xD7 then n else n + 32)
  else if n = 0x178 then 0xFF
  else if (0x100 ≤ n ∧ n ≤ 0x137) ∨ (0x14A ≤ n ∧ n ≤ 0x177) then n + (n + 1) % 2
  else if (0x139 ≤ n ∧ n ≤ 0x148) ∨ (0x179 ≤ n ∧ n ≤ 0x17E) then n + n % 2
  else if 0x391 ≤ n ∧ n ≤ 0x3AB then (if n = 0x3A2 then n else n + 32)
  else if 0x388 ≤ n ∧ n ≤ 0x38A then n + 37
  else if n = 0x386 then 0x3AC
  else if n = 0x38C then 0x3CC
  else if n = 0x38E ∨ n = 0x38F then n + 63
  else if 0x400 ≤ n ∧ n ≤ 0x40F then n + 80
  else if 0x410 ≤ n ∧ n ≤ 0x42F then n + 32
  else if 0x460 ≤ n ∧ n ≤ 0x481 then n + (n + 1) % 2
  else if 0x48A ≤ n ∧ n ≤ 0x4BF then n + (n + 1) % 2
  else n

/-- Characters that stand for nothing in a name. -/
def isIgnored (n : Nat) : Bool :=
  n == 0xAD || n == 0x200B || n == 0x2060 || n == 0xFEFF || (0xFE00 ≤ n && n ≤ 0xFE0F)

/-- The full stops of other scripts part labels too. -/
def isFullStop (n : Nat) : Bool :=
  n == 0x3002 || n == 0xFF0E || n == 0xFF61

/-- The form in which a character of a name counts. -/
def mapped (c : Char) : List Char :=
  if isIgnored c.toNat then []
  else if isFullStop c.toNat then ['.']
  else [Char.ofNat (lowerPoint c.toNat)]

/-- The ASCII form of a label. A label that is already in Punycode has to stand for a label outside
ASCII that is written so. -/
def label? (text : List Char) : Option (List Char) :=
  let points := text.map Char.toNat
  if points.all (· < 128) then
    match Text.dropWord? "xn--".toList text with
    | none => some text
    | some code =>
      match Punycode.decode? code with
      | none => none
      | some decoded =>
        if decoded.any (128 ≤ ·) && decoded.map lowerPoint == decoded &&
          Punycode.encode decoded == code then some text
        else none
  else if (Text.dropWord? "xn--".toList text).isSome then none
  else some ("xn--".toList ++ Punycode.encode points)

/-- The naming of texts in the letters of these blocks. -/
def standard : Naming := fun text =>
  let text := text.flatMap mapped
  if text.any isDenied then none
  else ((Text.pieces '.' text).mapM label?).map (['.'].intercalate ·)

end Naming
end BatchFetch.Host
