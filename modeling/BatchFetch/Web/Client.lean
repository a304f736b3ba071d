import BatchFetch.Url.Reference
import BatchFetch.Web.Charset

namespace BatchFetch

structure Page where
  status : Nat := 200
  body : Bytes := []
  location : Option String := none
  contentType : Option String := none
  /-- The body as the client decodes it. -/
  text : List Char := Charset.decode contentType body
  /-- The connection is closed without an answer. -/
  drop : Bool := false
  /-- The body ends early. -/
  truncate : Bool := false
  deriving DecidableEq, Repr, Inhabited

/-- The answers for the URLs that are asked for, whether servers can be reached at all, and the
naming of the hosts to which answers redirect. -/
structure Web where
  pages : List (Url × Page) := []
  connected : Bool := true
  naming : Host.Naming := .standard
  deriving Inhabited

/-- Why a request fails; `url` is the one that was requested first. -/
inductive RequestError where
  | sending (url : Url)
  | builder (url : Url)
  | redirect (url : Url)
  | body
  deriving DecidableEq, Repr, Inhabited

def RequestError.message : RequestError → String
  | sending url => s!"error sending request for url ({url.text})"
  | builder url => s!"builder error for url ({url.text})"
  | redirect url => s!"error following redirect for url ({url.text})"
  | body => "error decoding response body"

/-- How a request ends, and the URLs that servers were asked for. -/
structure Exchange where
  result : Except RequestError Page
  requests : List Url := []
  deriving Inhabited

/-- Whether a status says that the request has succeeded. -/
def isSuccessStatus (status : Nat) : Bool :=
  200 ≤ status && status < 300

/-- Whether a status says that the answer is elsewhere. -/
def isRedirectStatus (status : Nat) : Bool :=
  [301, 302, 303, 307, 308].contains status

namespace Web

/-- The number of redirects that are followed. -/
def maxRedirects : Nat := 10

/-- The answer for a URL that is asked for. -/
def page (web : Web) (url : Url) : Page :=
  (web.pages.lookup url).getD { status := 404 }

/-- The URL that an answer redirects to. -/
def redirectTarget? (web : Web) (current : Url) (page : Page) : Option Url :=
  if isRedirectStatus page.status then
    page.location.bind fun location => (current.join location web.naming).toOption
  else none

/-- Ask for `current` on behalf of `first`, with `left` redirects still allowed. -/
def follow (web : Web) (first current : Url) (left : Nat) : Exchange :=
  if !web.connected then ⟨.error (.sending first), []⟩
  else if !current.isHttp then ⟨.error (.builder first), []⟩
  else
    let asked := current.requested
    let page := web.page asked
    if page.drop then ⟨.error (.sending first), [asked]⟩
    else
      match web.redirectTarget? current page with
      | none => ⟨.ok page, [asked]⟩
      | some next =>
        match left with
        | 0 => ⟨.error (.redirect first), [asked]⟩
        | left + 1 =>
          let rest := web.follow first next left
          { rest with requests := asked :: rest.requests }

def get (web : Web) (url : Url) : Exchange :=
  let shown := { url with authority := url.requested.authority }
  if url.isHttp then web.follow shown url maxRedirects else ⟨.error (.builder shown), []⟩

end Web
end BatchFetch
