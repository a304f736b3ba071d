import BatchFetch.Log
import BatchFetch.Status
import BatchFetch.Web.Client
import BatchFetch.Web.Status

namespace BatchFetch

/-- One result of resolving a URL. -/
inductive Entry where
  /-- A file to fetch. -/
  | file (url : Url)
  /-- A target to be resolved in turn. -/
  | queue (url : Url)
  deriving DecidableEq, Repr, Inhabited

inductive FetchError where
  | request (error : RequestError)
  | status (code : Nat) (url : Url)
  deriving DecidableEq, Repr, Inhabited

namespace FetchError

def message : FetchError → String
  | request error => "request failed: " ++ error.message
  | status code url => s!"HTTP {statusText code} for {url.text}"

/-- The bits that a failure contributes. -/
def exitStatus : FetchError → ExitStatus
  | status 404 _ => .missing
  | _ => .http

end FetchError

/-- What resolving a URL yields, with the URLs that servers were asked for. -/
structure Resolution where
  result : Except FetchError (List Entry)
  requests : List Url := []
  events : List Event := []
  deriving Inhabited

/-- The entries that were found; none when resolving failed. -/
def Resolution.entries (resolution : Resolution) : List Entry :=
  match resolution.result with
  | .ok entries => entries
  | .error _ => []

/-- The answer of a handler that has its answers by heart. -/
inductive FixedAnswer where
  | entries (entries : List Entry)
  | failure (status : Nat)
  deriving DecidableEq, Repr, Inhabited

inductive Handler where
  /-- Playlists: each line of the file names a target. -/
  | playlist
  /-- Links to a single file. -/
  | direct
  /-- Claims the URLs that start with `lead` and answers from a table; a URL outside it has no
  entries. -/
  | fixed (name lead : String) (table : List (Url × FixedAnswer))
  deriving DecidableEq, Repr, Inhabited

namespace Handler

def name : Handler → String
  | playlist => "playlist"
  | direct => "direct"
  | fixed name _ _ => name

def claims (handler : Handler) (url : Url) : Bool :=
  match handler with
  | playlist => url.isHttp && (url.extension? == some "m3u" || url.extension? == some "m3u8")
  | direct => url.isHttp && url.extension?.isSome
  | fixed _ lead _ => (Text.dropWord? lead.toList url.text.toList).isSome

/-- The lines of a playlist that name targets. -/
def playlistLines (body : List Char) : List (List Char) :=
  ((Text.pieces '\n' body).map Text.trim).filter fun line => !line.isEmpty && line.head? ≠ some '#'

/-- The entry that a line of a playlist names, or why it names none. -/
def playlistEntry (naming : Host.Naming) (base : Url) (line : List Char) : Except Event Entry :=
  match base.join (String.ofList line) naming with
  | .ok url => .ok (.queue url)
  | .error e => .error (.warn s!"Ignoring playlist entry '{String.ofList line}': {e.message}")

/-- The entries of a playlist, and an event for each line that is no reference. -/
def playlistEntries (naming : Host.Naming) (base : Url) (body : List Char) :
    List Entry × List Event :=
  let found := (playlistLines body).map (playlistEntry naming base)
  (found.filterMap Except.toOption, found.filterMap fun
    | .ok _ => none
    | .error event => some event)

/-- Resolve a URL, given what comes back when a URL is requested. -/
def resolveBy (handler : Handler) (naming : Host.Naming) (get : Url → Exchange) (url : Url) :
    Resolution :=
  match handler with
  | direct => { result := .ok [.file url] }
  | fixed _ _ table =>
    match table.lookup url with
    | none => { result := .ok [] }
    | some (.entries entries) => { result := .ok entries }
    | some (.failure status) => { result := .error (.status status url) }
  | playlist =>
    let exchange := get url
    match exchange.result with
    | .error e => { result := .error (.request e), requests := exchange.requests }
    | .ok page =>
      if !isSuccessStatus page.status then
        { result := .error (.status page.status url), requests := exchange.requests }
      else if page.truncate then
        { result := .error (.request .body), requests := exchange.requests }
      else
        let (entries, events) := playlistEntries naming url page.text
        { result := .ok entries, requests := exchange.requests, events }

end Handler

/-- Handlers in the order of their precedence, and the naming of the hosts in targets. -/
structure Registry where
  handlers : List Handler
  naming : Host.Naming := .standard
  deriving Inhabited

namespace Registry

/-- Playlists, and then all other files. -/
def standard : Registry where
  handlers := [.playlist, .direct]

def find? (registry : Registry) (url : Url) : Option Handler :=
  registry.handlers.find? (·.claims url)

/-- The URL of a target and the handler that claims it. -/
def findFor? (registry : Registry) (target : String) : Option (Url × Handler) :=
  match Url.parse target registry.naming with
  | .error _ => none
  | .ok url => (registry.find? url).map fun handler => (url, handler)

end Registry
end BatchFetch
