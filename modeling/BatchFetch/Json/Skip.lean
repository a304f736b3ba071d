import BatchFetch.Json.Reader

namespace BatchFetch.Json

/-- One digit or more. -/
def skipDigits (cs : List Char) : Except Fault (List Char) :=
  match cs.takeWhile isDigit with
  | [] => .error (Fault.at .invalidNumber cs)
  | _ => .ok (cs.dropWhile isDigit)

def skipExponent (rest : List Char) : Except Fault (List Char) :=
  match rest with
  | '+' :: rest | '-' :: rest => skipDigits rest
  | rest => skipDigits rest

/-- A number after its sign. -/
def skipNumber (cs : List Char) : Except Fault (List Char) := do
  let rest ← skipDigits cs
  match cs.takeWhile isDigit with
  | '0' :: _ :: _ => throw (Fault.at .invalidNumber (cs.drop 1))
  | _ =>
    let rest ← match rest with
      | '.' :: rest => skipDigits rest
      | rest => pure rest
    match rest with
    | 'e' :: rest | 'E' :: rest => skipExponent rest
    | rest => return rest

/-- A string after its opening quote. The fuel is the length of the text. -/
def skipString : Nat → List Char → Except Fault (List Char)
  | 0, rest => .error (Fault.at .eofInString rest)
  | _ + 1, [] => .error (Fault.at .eofInString [])
  | fuel + 1, c :: rest =>
    if c = '"' then .ok rest
    else if c = '\\' then
      match rest with
      | 'u' :: rest => do
        let (_, rest) ← hexEscape rest
        skipString fuel rest
      | rest => do
        let (_, rest) ← escape rest
        skipString fuel rest
    else if c.toNat < 32 then .error (Fault.at .controlCharacter (c :: rest))
    else skipString fuel rest

/-- A value; what is read is not kept. The fuel is the length of the text. -/
def skipValue : Nat → List Char → Except Fault (Json × List Char)
  | fuel, cs =>
    let ignore (rest : Except Fault (List Char)) : Except Fault (Json × List Char) :=
      rest.map fun rest => (.null, rest)
    match skipSpace cs with
    | [] => .error (Fault.at .eofInValue [])
    | 'n' :: rest => literal "ull".toList .null rest
    | 't' :: rest => literal "rue".toList .null rest
    | 'f' :: rest => literal "alse".toList .null rest
    | '-' :: rest => ignore (skipNumber rest)
    | '"' :: rest => ignore (skipString (rest.length + 1) rest)
    | c :: rest =>
      if isDigit c then ignore (skipNumber (c :: rest))
      else
        match fuel with
        | 0 => .error (Fault.at .expectedValue (c :: rest))
        | fuel + 1 =>
          if c = '[' then
            (items (skipValue fuel) (rest.length + 1) true [] rest).map fun (_, rest) =>
              (.null, rest)
          else if c = '\x7b' then
            (members (skipValue fuel) (rest.length + 1) true [] rest).map fun (_, rest) =>
              (.null, rest)
          else .error (Fault.at .expectedValue (c :: rest))

end BatchFetch.Json
