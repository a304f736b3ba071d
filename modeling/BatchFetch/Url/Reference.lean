import BatchFetch.Url.Basic

namespace BatchFetch

/-- The query and the fragment of a reference. -/
structure Tail where
  query : Option String
  fragment : Option String
  deriving DecidableEq, Repr, Inhabited

/-- One piece of a path, already encoded. -/
inductive PathStep where
  | up
  | stay
  | enter (name : String)
  deriving DecidableEq, Repr, Inhabited

inductive Reference where
  | whole (url : Url)
  | network (authority : Authority) (steps : List PathStep) (tail : Tail)
  | rooted (steps : List PathStep) (tail : Tail)
  | relative (steps : List PathStep) (tail : Tail)
  | query (tail : Tail)
  | fragment (fragment : Option String)
  deriving DecidableEq, Repr, Inhabited

namespace Url

/-- Characters that are dropped at both ends of a URL. -/
def isEdge (c : Char) : Bool :=
  c.toNat ≤ 32

/-- A text without the characters that do not count in a URL. -/
def cleaned (text : List Char) : List Char :=
  let front := text.dropWhile isEdge
  let kept := (front.reverse.dropWhile isEdge).reverse
  kept.filter fun c => c ≠ '\t' && c ≠ '\n' && c ≠ '\r'

def isSchemeChar (c : Char) : Bool :=
  c.isAlphanum || c == '+' || c == '-' || c == '.'

/-- The scheme in lower case, and what follows its colon. -/
def cutScheme (text : List Char) : Option (String × List Char) :=
  match text with
  | [] => none
  | c :: _ =>
    if !c.isAlpha then none
    else
      match text.dropWhile isSchemeChar with
      | ':' :: rest => some (String.ofList ((text.takeWhile isSchemeChar).map Char.toLower), rest)
      | _ => none

/-- A slash, or a backslash where the scheme is special. -/
def isSlash (special : Bool) (c : Char) : Bool :=
  c == '/' || (special && c == '\\')

/-- The part in front of the query, and the query and the fragment in encoded form. -/
def cutTail (special : Bool) (text : List Char) : List Char × Tail :=
  let encoded (set : List Char) (part : List Char) : String :=
    String.ofList (Percent.encode set part)
  let (front, fragment) := match Text.cutFirst '#' text with
    | some (front, fragment) => (front, some (encoded Percent.fragmentSet fragment))
    | none => (text, none)
  let set := if special then Percent.specialQuerySet else Percent.querySet
  match Text.cutFirst '?' front with
  | some (body, query) => (body, ⟨some (encoded set query), fragment⟩)
  | none => (front, ⟨none, fragment⟩)

/-- The pieces of a path text between its slashes. -/
def pathPieces (special : Bool) (text : List Char) : List (List Char) :=
  Text.pieces '/' (text.map fun c => if isSlash special c then '/' else c)

/-- What a piece does: a dot may also be written as an escape. -/
def pathStep (piece : List Char) : PathStep :=
  let name := String.ofList (Percent.encode Percent.pathSet piece)
  match Text.asciiLower name with
  | "." | "%2e" => .stay
  | ".." | ".%2e" | "%2e." | "%2e%2e" => .up
  | _ => .enter name

def pathSteps (special : Bool) (text : List Char) : List PathStep :=
  (pathPieces special text).map pathStep

/-- Follow steps from some segments. A path that ends in a dot or two ends in a slash. -/
def walk : List String → List PathStep → List String
  | segments, [] => segments
  | segments, [.up] => segments.dropLast ++ [""]
  | segments, [.stay] => segments ++ [""]
  | segments, .up :: rest => walk segments.dropLast rest
  | segments, .stay :: rest => walk segments rest
  | segments, .enter name :: rest => walk (segments ++ [name]) rest

/-- The user information and what follows the last `@`. -/
def cutUserinfo (text : List Char) : Option (List Char × List Char) :=
  Text.cutLast '@' text

/-- The host part and the port part of an authority: the first colon outside brackets parts them. -/
def cutPort : Bool → List Char → List Char × Option (List Char)
  | _, [] => ([], none)
  | inside, c :: rest =>
    if c = ':' ∧ !inside then ([], some rest)
    else
      let (host, port) := cutPort (if c = '[' then true else if c = ']' then false else inside) rest
      (c :: host, port)

/-- A port of 16 bits; an empty one and the default one of the scheme are not kept. -/
def parsePort (scheme : String) (text : List Char) : Except UrlError (Option Nat) :=
  if text.isEmpty then .ok none
  else
    match Text.number? 10 text with
    | none => .error .badPort
    | some n =>
      if 65535 < n then .error .badPort
      else .ok (if some n = defaultPort scheme then none else some n)

/-- The user name and the password of an authority in encoded form, and what follows them. -/
def cutCredentials (text : List Char) : String × String × List Char :=
  let encoded (part : List Char) : String := String.ofList (Percent.encode Percent.userinfoSet part)
  match cutUserinfo text with
  | none => ("", "", text)
  | some (userinfo, place) =>
    match Text.cutFirst ':' userinfo with
    | some (name, word) => (encoded name, encoded word, place)
    | none => (encoded userinfo, "", place)

/-- The authority in the text between the slashes and the path. -/
def parseAuthority (naming : Host.Naming) (scheme : String) (text : List Char) : Except UrlError Authority := do
  let (username, password, place) := cutCredentials text
  let (hostText, portText) := cutPort false place
  let host ← if isSpecialScheme scheme then Host.parse naming hostText else Host.parseOpaque hostText
  if hostText.isEmpty && (portText.isSome || (cutUserinfo text).isSome) then throw .emptyHost
  let port ← match portText with
    | none => pure none
    | some digits => parsePort scheme digits
  return { username, password, host, port }

/-- The authority text and the path text behind two slashes. -/
def cutAuthority (special : Bool) (text : List Char) : List Char × List Char :=
  (text.takeWhile fun c => !isSlash special c, text.dropWhile fun c => !isSlash special c)

/-- The steps of the path behind an authority, which starts with a slash or is empty. -/
def pathAfter (special : Bool) (text : List Char) : List PathStep :=
  match text with
  | [] => if special then [.enter ""] else []
  | _ :: rest => pathSteps special rest

def startsWithSlashes (special : Bool) : List Char → Bool
  | a :: b :: _ => isSlash special a && isSlash special b
  | _ => false

/-- A drive letter of a file URL, such as `c:` or `c|`. -/
def isDrive (segment : String) : Bool :=
  match segment.toList with
  | [c, d] => c.isAlpha && (d == ':' || d == '|')
  | _ => false

/-- Follow the steps of a file URL: a leading drive letter is never left, and no empty segments
stand in front. -/
def walkFile (segments : List String) (steps : List PathStep) : List String :=
  match segments, steps with
  | [], .enter name :: rest =>
    if isDrive name then
      String.ofList (name.toList.take 1 ++ [':']) :: (match rest with
        | [] => []
        | _ => walk [] rest)
    else
      match (walk [] steps).dropWhile (·.isEmpty) with
      | [] => [""]
      | kept => kept
  | segments, steps =>
    match (walk segments steps).dropWhile (·.isEmpty) with
    | [] => [""]
    | kept => kept

/-- The host of a file URL; an empty one and the local one are not kept. -/
def fileHost (naming : Host.Naming) (text : List Char) : Except UrlError Host :=
  if text.isEmpty then .ok (.name "")
  else (Host.parse naming text).map fun host => if host = .name "localhost" then .name "" else host

/-- A file URL behind its scheme. -/
def parseFile (naming : Host.Naming) (text : List Char) : Except UrlError Url := do
  let (body, tail) := cutTail true text
  let (host, steps) ←
    if startsWithSlashes true body then
      let (hostText, pathText) := cutAuthority true (body.drop 2)
      if isDrive (String.ofList hostText) then pure (.name "", pathSteps true (body.drop 2))
      else pure (← fileHost naming hostText, pathAfter true pathText)
    else
      match body with
      | c :: rest =>
        pure (.name "", pathSteps true (if isSlash true c then rest else body))
      | [] => pure (.name "", [.enter ""])
  return {
    scheme := "file"
    authority := some { host }
    route := .segments (walkFile [] steps)
    query := tail.query
    fragment := tail.fragment }

/-- A URL of a special scheme behind its slashes. -/
def parseServer (naming : Host.Naming) (scheme : String) (text : List Char) : Except UrlError Url := do
  let special := isSpecialScheme scheme
  let (body, tail) := cutTail special text
  let (authorityText, pathText) := cutAuthority special body
  let authority ← parseAuthority naming scheme authorityText
  return {
    scheme
    authority := some authority
    route := .segments (walk [] (pathAfter special pathText))
    query := tail.query
    fragment := tail.fragment }

/-- A URL of a scheme that is not special, behind the scheme. -/
def parseOther (naming : Host.Naming) (scheme : String) (text : List Char) : Except UrlError Url :=
  match text with
  | '/' :: '/' :: rest => parseServer naming scheme rest
  | text =>
    let (body, tail) := cutTail false text
    let route : Route := match body with
      | '/' :: rest => .segments (walk [] (pathSteps false rest))
      | body => .opaqueText (String.ofList (Percent.encode [] body))
    .ok { scheme, route, query := tail.query, fragment := tail.fragment }

/-- A URL behind its scheme, without regard to a base. -/
def parseScheme (naming : Host.Naming) (scheme : String) (text : List Char) : Except UrlError Url :=
  if scheme = "file" then parseFile naming text
  else if isSpecialScheme scheme then parseServer naming scheme (text.dropWhile (isSlash true))
  else parseOther naming scheme text

/-- Read a URL that stands by itself. -/
def parseChars (naming : Host.Naming) (text : List Char) : Except UrlError Url :=
  match cutScheme (cleaned text) with
  | some (scheme, rest) => parseScheme naming scheme rest
  | none => .error .noBase

def parse (text : String) (naming : Host.Naming := .standard) : Except UrlError Url :=
  parseChars naming text.toList

end Url

namespace Reference

/-- Read what a text without a scheme of its own says, from a base with the given scheme. -/
def parseRelative (naming : Host.Naming) (scheme : String) (text : List Char) : Except UrlError Reference :=
  let special := isSpecialScheme scheme
  let (body, tail) := Url.cutTail special text
  match body with
  | [] =>
    .ok (match tail.query with
      | none => fragment tail.fragment
      | some _ => query tail)
  | c :: rest =>
    if Url.startsWithSlashes special body then
      let behind := match body with
        | '/' :: '/' :: behind => behind
        | _ => body.dropWhile (Url.isSlash special)
      let (authorityText, pathText) := Url.cutAuthority special behind
      let authority : Except UrlError Authority :=
        if scheme = "file" then (Url.fileHost naming authorityText).map fun host => { host }
        else Url.parseAuthority naming scheme authorityText
      authority.map fun authority => network authority (Url.pathAfter special pathText) tail
    else if Url.isSlash special c then .ok (rooted (Url.pathSteps special rest) tail)
    else .ok (relative (Url.pathSteps special body) tail)

/-- Read a reference from a base with the given scheme. A text with the special scheme of the base
but without two slashes is relative all the same. -/
def parse (naming : Host.Naming) (baseScheme : String) (text : String) : Except UrlError Reference :=
  let text := Url.cleaned text.toList
  match Url.cutScheme text with
  | none => parseRelative naming baseScheme text
  | some (scheme, rest) =>
    if scheme = baseScheme && isSpecialScheme scheme && !Url.startsWithSlashes true rest then
      parseRelative naming baseScheme rest
    else (Url.parseScheme naming scheme rest).map whole

/-- Read a reference from a base with the given scheme and path. From an opaque path, only fragments
can be reached without a scheme. -/
def read (naming : Host.Naming) (baseScheme : String) (isOpaque : Bool) (text : String) :
    Except UrlError Reference :=
  if isOpaque then
    let chars := Url.cleaned text.toList
    match Url.cutScheme chars with
    | some (scheme, rest) => (Url.parseScheme naming scheme rest).map whole
    | none => if chars.head? = some '#' then parse naming baseScheme text else .error .opaqueBase
  else parse naming baseScheme text

/-- Follow steps in the way of the scheme. -/
def follow (scheme : String) (segments : List String) (steps : List PathStep) : Route :=
  .segments (if scheme = "file" then Url.walkFile segments steps else Url.walk segments steps)

/-- The segments of a base in front of its last one. -/
def folder (base : Url) : List String :=
  match base.route with
  | .segments list => list.dropLast
  | .opaqueText _ => []

/-- The URL that a reference names from a base. -/
def resolve (base : Url) : Reference → Url
  | whole url => url
  | network authority steps tail =>
    { scheme := base.scheme
      authority := some authority
      route := follow base.scheme [] steps
      query := tail.query
      fragment := tail.fragment }
  | rooted steps tail =>
    { base with
      route := follow base.scheme [] steps, query := tail.query, fragment := tail.fragment }
  | relative steps tail =>
    { base with
      route := follow base.scheme (folder base) steps
      query := tail.query
      fragment := tail.fragment }
  | query tail => { base with query := tail.query, fragment := tail.fragment }
  | fragment f => { base with fragment := f }

end Reference

def Url.isOpaque (url : Url) : Bool :=
  match url.route with
  | .segments _ => false
  | .opaqueText _ => true

/-- The URL that a text names from a base. -/
def Url.join (base : Url) (text : String) (naming : Host.Naming := .standard) :
    Except UrlError Url :=
  (Reference.read naming base.scheme base.isOpaque text).map (Reference.resolve base)

end BatchFetch
