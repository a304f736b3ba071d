namespace BatchFetch.Punycode

/-- A digit in base 36: the letters, then the decimal digits. -/
def digit (n : Nat) : Char :=
  if n < 26 then Char.ofNat (97 + n) else Char.ofNat (22 + n)

def digitValue? (c : Char) : Option Nat :=
  if 'a' ≤ c ∧ c ≤ 'z' then some (c.toNat - 97)
  else if 'A' ≤ c ∧ c ≤ 'Z' then some (c.toNat - 65)
  else if '0' ≤ c ∧ c ≤ '9' then some (c.toNat - 22)
  else none

/-- The threshold of the digit at position `k`. -/
def threshold (bias k : Nat) : Nat :=
  if k ≤ bias then 1 else if bias + 26 ≤ k then 26 else k - bias

/-- Scale a difference down until it is small, counting the steps. -/
def scale (delta steps : Nat) : Nat × Nat :=
  if 455 < delta then scale (delta / 35) (steps + 1) else (delta, steps)
  termination_by delta
  decreasing_by omega

/-- The bias after a difference has been written. -/
def adapt (delta count : Nat) (isFirst : Bool) : Nat :=
  let delta := if isFirst then delta / 700 else delta / 2
  let (delta, steps) := scale (delta + delta / count) 0
  36 * steps + 36 * delta / (delta + 38)

/-- A difference as digits, least significant first. The fuel is the number itself. -/
def variableLength : Nat → Nat → Nat → Nat → List Char
  | 0, _, _, q => [digit q]
  | fuel + 1, bias, k, q =>
    let t := threshold bias k
    if q < t then [digit q]
    else digit (t + (q - t) % (36 - t)) :: variableLength fuel bias (k + 36) ((q - t) / (36 - t))

/-- The state while the code points are written in ascending order: the number already written, the
current difference and the bias. -/
structure Encoder where
  written : Nat
  basic : Nat
  delta : Nat := 0
  bias : Nat := 72

/-- Pass over the input for one code point `m`, writing its occurrences. -/
def encodeOne (m : Nat) : List Nat → Encoder → List Char × Encoder
  | [], e => ([], e)
  | c :: rest, e =>
    if c < m then encodeOne m rest { e with delta := e.delta + 1 }
    else if c = m then
      let digits := variableLength e.delta e.bias 36 e.delta
      let bias := adapt e.delta (e.written + 1) (e.written == e.basic)
      let (more, e) := encodeOne m rest { e with written := e.written + 1, delta := 0, bias }
      (digits ++ more, e)
    else encodeOne m rest e

/-- Write the code points of an ascending list, each at all its occurrences in the input. -/
def encodeAll (input : List Nat) : Nat → List Nat → Encoder → List Char
  | _, [], _ => []
  | n, m :: rest, e =>
    let e := { e with delta := e.delta + (m - n) * (e.written + 1) }
    let (digits, e) := encodeOne m input e
    digits ++ encodeAll input (m + 1) rest { e with delta := e.delta + 1 }

/-- The Punycode form of a list of code points. -/
def encode (input : List Nat) : List Char :=
  let basic := input.filter (· < 128)
  let others := ((input.filter (128 ≤ ·)).mergeSort).eraseDups
  let lead := basic.map Char.ofNat ++ (if basic.isEmpty then [] else ['-'])
  lead ++ encodeAll input 128 others { written := basic.length, basic := basic.length }

/-- The state while differences are read: the output, the code point and position reached, the bias,
and the difference under way with the weight and the place of its next digit. -/
structure Decoder where
  output : List Nat
  point : Nat := 128
  start : Nat := 0
  position : Nat := 0
  bias : Nat := 72
  weight : Nat := 1
  k : Nat := 36

/-- Read differences; the last one has to be complete. -/
def decodeFrom : List Char → Decoder → Option (List Nat)
  | [], d => if d.k = 36 then some d.output else none
  | c :: rest, d =>
    match digitValue? c with
    | none => none
    | some value =>
      let position := d.position + value * d.weight
      let t := threshold d.bias d.k
      if value < t then
        let count := d.output.length + 1
        let bias := adapt (position - d.start) count (d.start == 0)
        let point := d.point + position / count
        let place := position % count
        if 0x10FFFF < point then none
        else
          let output := d.output.take place ++ point :: d.output.drop place
          decodeFrom rest
            { output, point, start := place + 1, position := place + 1, bias, weight := 1, k := 36 }
      else decodeFrom rest { d with position, weight := d.weight * (36 - t), k := d.k + 36 }

/-- The code points of a Punycode text. -/
def decode? (text : List Char) : Option (List Nat) :=
  let reversed := text.reverse
  match reversed.dropWhile (· ≠ '-') with
  | [] => decodeFrom text { output := [] }
  | _ :: basic =>
    decodeFrom (reversed.takeWhile (· ≠ '-')).reverse { output := basic.reverse.map Char.toNat }

end BatchFetch.Punycode
