namespace BatchFetch.Text

/-- The value of a hexadecimal digit in either case. -/
def hexValue? (c : Char) : Option Nat :=
  if '0' ≤ c ∧ c ≤ '9' then some (c.toNat - 48)
  else if 'a' ≤ c ∧ c ≤ 'f' then some (c.toNat - 87)
  else if 'A' ≤ c ∧ c ≤ 'F' then some (c.toNat - 55)
  else none

/-- The number that digits of a base write; at least one digit is needed. -/
def number? (base : Nat) (digits : List Char) : Option Nat :=
  if digits.isEmpty then none
  else
    (digits.mapM hexValue?).bind fun values =>
      if values.all (· < base) then some (values.foldl (fun n d => n * base + d) 0) else none

/-- The character whose code the first `count` hexadecimal digits of a text write. -/
def hexChar? (count : Nat) (text : List Char) : Option Char :=
  let digits := text.take count
  if digits.length < count then none
  else
    (number? 16 digits).bind fun code =>
      if code.isValidChar then some (Char.ofNat code) else none

/-- Whether a text has a minus sign, and what follows its sign if it has one. -/
def cutSign : List Char → Bool × List Char
  | '-' :: rest => (true, rest)
  | '+' :: rest => (false, rest)
  | text => (false, text)

end BatchFetch.Text
