import BatchFetch.Url.Host

namespace BatchFetch

/-- Who serves a URL; an empty user name or password is not written. -/
structure Authority where
  username : String := ""
  password : String := ""
  host : Host
  port : Option Nat := none
  deriving DecidableEq, Repr, Inhabited

inductive Route where
  | segments (list : List String)
  | opaqueText (text : String)
  deriving DecidableEq, Repr, Inhabited

structure Url where
  scheme : String
  authority : Option Authority := none
  route : Route
  query : Option String := none
  fragment : Option String := none
  deriving DecidableEq, Repr, Inhabited

/-- The schemes whose URLs have a host and a path of segments. -/
def isSpecialScheme (scheme : String) : Bool :=
  ["http", "https", "ws", "wss", "ftp", "file"].contains scheme

def defaultPort (scheme : String) : Option Nat :=
  match scheme with
  | "http" | "ws" => some 80
  | "https" | "wss" => some 443
  | "ftp" => some 21
  | _ => none

namespace Authority

def userinfo (a : Authority) : String :=
  if a.username.isEmpty && a.password.isEmpty then ""
  else a.username ++ (if a.password.isEmpty then "" else ":" ++ a.password) ++ "@"

def text (a : Authority) : String :=
  a.userinfo ++ a.host.text ++ ((a.port.map fun n => s!":{n}").getD "")

end Authority

namespace Url

def path (url : Url) : String :=
  match url.route with
  | .opaqueText text => text
  | .segments list => String.join (list.map ("/" ++ ·))

def pathSegments? (url : Url) : Option (List String) :=
  match url.route with
  | .segments [] => none
  | .segments list => some list
  | .opaqueText _ => none

/-- The text of a URL. A path that starts with an empty segment is kept apart from an authority. -/
def text (url : Url) : String :=
  let front := match url.authority, url.route with
    | some authority, _ => "//" ++ authority.text
    | none, .segments ("" :: _ :: _) => "/."
    | none, _ => ""
  url.scheme ++ ":" ++ front ++ url.path ++ ((url.query.map ("?" ++ ·)).getD "") ++
    ((url.fragment.map ("#" ++ ·)).getD "")

def isHttp (url : Url) : Bool :=
  url.scheme == "http" || url.scheme == "https"

def lastSegment? (url : Url) : Option String :=
  url.pathSegments?.bind List.getLast?

/-- The stem and the extension of a file name, parted by the last dot. -/
def splitName (name : String) : Option (String × String) :=
  (Text.cutLast '.' name.toList).map fun (stem, extension) =>
    (String.ofList stem, String.ofList extension)

/-- The extension of the last segment in lower case; neither it nor the stem may be empty. -/
def extension? (url : Url) : Option String :=
  match url.lastSegment?.bind splitName with
  | none => none
  | some (stem, extension) =>
    if stem.isEmpty || extension.isEmpty then none else some (Text.asciiLower extension)

/-- The URL that a request asks for: no fragment, user name or password. -/
def requested (url : Url) : Url :=
  { url with
    authority := url.authority.map fun a => { a with username := "", password := "" }
    fragment := none }

end Url
end BatchFetch
