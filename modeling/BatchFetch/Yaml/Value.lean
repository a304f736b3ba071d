import BatchFetch.Json.Value
import BatchFetch.Text.Cut
import BatchFetch.Yaml.Node

namespace BatchFetch.Yaml

def isNull (text : String) : Bool :=
  ["null", "Null", "NULL", "~"].contains text

def boolean? (text : String) : Option Bool :=
  if ["true", "True", "TRUE"].contains text then some true
  else if ["false", "False", "FALSE"].contains text then some false
  else none

/-- Whether a text has the form of a number with leading zeros, which is no number. -/
def isZeroPadded (text : List Char) : Bool :=
  match text with
  | '0' :: rest => !rest.isEmpty && rest.all Char.isDigit
  | _ => false

/-- The digits behind a prefix that names a base, or decimal digits without such a prefix. -/
def magnitude? (text : List Char) : Option Nat :=
  let based := match text with
    | '0' :: 'x' :: rest => Text.number? 16 rest
    | '0' :: 'o' :: rest => Text.number? 8 rest
    | '0' :: 'b' :: rest => Text.number? 2 rest
    | _ => none
  based <|> (if isZeroPadded text then none else Text.number? 10 text)

/-- The integer that a text writes, if it has at most 128 bits. -/
def integer? (text : List Char) : Option Int :=
  let (negative, rest) := Text.cutSign text
  (magnitude? rest).bind fun n =>
    if negative then (if n ≤ Nat.pow 2 127 then some (-(n : Int)) else none)
    else if n < Nat.pow 2 128 then some n
    else none

/-- The exponent of a decimal number, if the text is empty or an exponent. -/
def exponent? (text : List Char) : Option Int :=
  match text with
  | [] => some 0
  | 'e' :: rest | 'E' :: rest =>
    let (negative, rest) := Text.cutSign rest
    if rest.isEmpty || !rest.all Char.isDigit then none
    else (Text.number? 10 rest).map fun n => if negative then -(n : Int) else n
  | _ => none

/-- A decimal number without a sign, with a digit in front of or behind the point. -/
def decimal? (negative : Bool) (text : List Char) : Option Binary64 :=
  let whole := text.takeWhile Char.isDigit
  let rest := text.drop whole.length
  let (fraction, rest) := match rest with
    | '.' :: rest =>
      let fraction := rest.takeWhile Char.isDigit
      (fraction, rest.drop fraction.length)
    | rest => ([], rest)
  if whole.isEmpty && fraction.isEmpty then none
  else
    match exponent? rest, Text.number? 10 (whole ++ fraction) with
    | some e, some digits => Binary64.ofDecimal? negative digits (e - fraction.length)
    | _, _ => none

/-- What a text writes that looks like a number with a point or an exponent: a finite number, or an
infinity or not-a-number, for which there is no value. -/
def real? (text : List Char) : Option Json :=
  let (negative, rest) := Text.cutSign text
  let unsigned := String.ofList rest
  if [".inf", ".Inf", ".INF"].contains unsigned then some .null
  else if [".nan", ".NaN", ".NAN"].contains (String.ofList text) then some .null
  else (decimal? negative rest).map fun x => .num (.real x)

/-- An integer of at most 64 bits. -/
def word (n : Int) : Except Fault Json :=
  if Json.isWord n then .ok (.num (.int n)) else .error { problem := .numberOutOfRange }

/-- The value of a plain scalar without a tag. -/
def plainValue (text : String) : Except Fault Json :=
  let chars := text.toList
  if text.isEmpty || isNull text then .ok .null
  else
    match boolean? text, integer? chars with
    | some b, _ => .ok (.bool b)
    | none, some n => word n
    | none, none =>
      if isZeroPadded (Text.cutSign chars).2 then .ok (.str text)
      else .ok ((real? chars).getD (.str text))

/-- The value of a scalar under a standard tag. -/
def taggedValue? (tag : String) (text : String) : Option (Except Fault Json) :=
  let expected (value : Option (Except Fault Json)) : Except Fault Json :=
    value.getD (.error { problem := .badTaggedScalar })
  match tag with
  | "tag:yaml.org,2002:bool" => some (expected ((boolean? text).map fun b => .ok (.bool b)))
  | "tag:yaml.org,2002:int" => some (expected ((integer? text.toList).map word))
  | "tag:yaml.org,2002:float" => some (expected ((real? text.toList).map .ok))
  | "tag:yaml.org,2002:null" => some (expected (if isNull text then some (.ok .null) else none))
  | _ => none

/-- Whether a tag is local, which no value can carry. -/
def isLocalTag (tag : String) : Bool :=
  tag.toList.head? == some '!' && 1 < tag.length

def scalarValue (properties : Properties) (plain : Bool) (text : String) : Except Fault Json :=
  match properties.tag with
  | none => if plain then plainValue text else .ok (.str text)
  | some tag =>
    if isLocalTag tag then .error { problem := .badTaggedScalar }
    else
      (taggedValue? tag text).getD
        (if tag == "!" && plain then plainValue text else .ok (.str text))

/-- A value with the depth of its nesting and the number of aliases that led to it. -/
structure Built where
  json : Json
  depth : Nat := 0
  jumps : Nat := 0
  deriving Inhabited

/-- What an anchor stands for. -/
inductive Anchored where
  | scalar (properties : Properties) (plain : Bool) (text : String)
  | built (value : Built)
  /-- A collection that is still being read. -/
  | unfinished
  deriving Inhabited

/-- The anchors so far, latest first. -/
abbrev Anchors := List (String × Anchored)

/-- Note what an anchor stands for, if there is one. -/
def noteAnchor (anchors : Anchors) (anchor : Option String) (anchored : Anchored) : Anchors :=
  match anchor with
  | some name => (name, anchored) :: anchors
  | none => anchors

/-- Note that the collection of an anchor has been read: the latest unfinished one under
the name. -/
def finishAnchor (anchors : Anchors) (anchor : Option String) (value : Built) : Anchors :=
  match anchor, anchors with
  | none, anchors => anchors
  | some _, [] => []
  | some name, (other, .unfinished) :: rest =>
    if other = name then (name, .built value) :: rest
    else (other, .unfinished) :: finishAnchor rest (some name) value
  | some name, entry :: rest => entry :: finishAnchor rest (some name) value

/-- The deepest nesting of collections. -/
def maxDepth : Nat := 128

/-- The collection of values of the given depth and jumps, if it is not too deep. -/
def Built.collection (level : Nat) (json : Json) (inner : Nat × Nat) : Except Fault Built :=
  if maxDepth ≤ level then .error { problem := .tooDeep }
  else .ok ⟨json, inner.1 + 1, inner.2⟩

/-- What an alias stands for in the place of a value. -/
def aliasValue (level : Nat) (anchors : Anchors) (name : String) : Except Fault Built :=
  match anchors.lookup name with
  | none => .error { problem := .unknownAnchor }
  | some .unfinished => .error { problem := .tooDeep }
  | some (.scalar properties plain text) =>
    (scalarValue properties plain text).map fun json => { json, jumps := 1 }
  | some (.built value) =>
    if maxDepth < level + value.depth then .error { problem := .tooDeep }
    else .ok { value with jumps := value.jumps + 1 }

/-- The text of a key, the number of aliases followed, and the anchors behind it. -/
def keyText (anchors : Anchors) : Node → Except Fault (String × Nat × Anchors)
  | .scalar properties plain text =>
    .ok (text, 0, noteAnchor anchors properties.anchor (.scalar properties plain text))
  | .reference name =>
    match anchors.lookup name with
    | none => .error { problem := .unknownAnchor }
    | some (.scalar _ _ text) => .ok (text, 1, anchors)
    | some _ => .error { problem := .keyNotString }
  | _ => .error { problem := .keyNotString }

mutual
/-- The value of a node at a level of nesting, and the anchors behind it. -/
def build (level : Nat) (anchors : Anchors) : Node → Except Fault (Built × Anchors)
  | .reference name => (aliasValue level anchors name).map fun value => (value, anchors)
  | .scalar properties plain text =>
    (scalarValue properties plain text).map fun json =>
      ({ json }, noteAnchor anchors properties.anchor (.scalar properties plain text))
  | .sequence properties items => do
    if properties.tag.any isLocalTag then throw { problem := .badTaggedScalar }
    let anchors := noteAnchor anchors properties.anchor .unfinished
    let (values, inner, anchors) ← buildItems (level + 1) anchors items
    let value ← Built.collection level (.arr values) inner
    return (value, finishAnchor anchors properties.anchor value)
  | .mapping properties members => do
    if properties.tag.any isLocalTag then throw { problem := .badTaggedScalar }
    let anchors := noteAnchor anchors properties.anchor .unfinished
    let (values, inner, anchors) ← buildMembers (level + 1) anchors members
    let value ← Built.collection level (Json.ofMembers values) inner
    return (value, finishAnchor anchors properties.anchor value)

/-- The values of nodes, with the greatest depth and the sum of the jumps. -/
def buildItems (level : Nat) (anchors : Anchors) :
    List Node → Except Fault (List Json × (Nat × Nat) × Anchors)
  | [] => .ok ([], (0, 0), anchors)
  | item :: rest => do
    let (value, anchors) ← build level anchors item
    let (values, (depth, jumps), anchors) ← buildItems level anchors rest
    return (value.json :: values, (max value.depth depth, value.jumps + jumps), anchors)

def buildMembers (level : Nat) (anchors : Anchors) :
    List (Node × Node) → Except Fault (List (String × Json) × (Nat × Nat) × Anchors)
  | [] => .ok ([], (0, 0), anchors)
  | (key, value) :: rest => do
    let (name, jump, anchors) ← keyText anchors key
    let (value, anchors) ← build level anchors value
    let (values, (depth, jumps), anchors) ← buildMembers level anchors rest
    return ((name, value.json) :: values,
      (max value.depth depth, jump + value.jumps + jumps), anchors)
end

mutual
/-- The number of steps in which a tree is walked: one for a leaf, two for a collection. -/
def Node.steps : Node → Nat
  | .reference _ | .scalar _ _ _ => 1
  | .sequence _ items => itemSteps items + 2
  | .mapping _ members => memberSteps members + 2

def Node.itemSteps : List Node → Nat
  | [] => 0
  | item :: rest => item.steps + itemSteps rest

def Node.memberSteps : List (Node × Node) → Nat
  | [] => 0
  | (key, value) :: rest => key.steps + value.steps + memberSteps rest
end

/-- The number of aliases that may be followed for each step of the tree. -/
def jumpsPerStep : Nat := 100

def Node.value (node : Node) : Except Fault Json := do
  let (value, _) ← build 0 [] node
  if node.steps * jumpsPerStep < value.jumps then throw { problem := .tooManyAliases }
  return value.json

/-- The value of a text; a text without a document is null. -/
def parse (text : String) : Except Fault Json := do
  let (tokens, fault) := Placed.ofText text
  match ← Node.ofTokens tokens fault with
  | none => return .null
  | some node => node.value

end BatchFetch.Yaml
