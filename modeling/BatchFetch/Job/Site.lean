import BatchFetch.Handler.Basic

namespace BatchFetch

/-- What fetching a file yields, with the URLs that servers were asked for. -/
structure Fetched where
  result : Except FetchError Bytes
  requests : List Url := []
  deriving Inhabited

structure Site where
  claims : Url → Bool
  resolve : Url → Resolution
  fetch : Url → Fetched

namespace Site

/-- Resolve a URL that is claimed; an unclaimed one has no entries. -/
def expand (site : Site) (url : Url) : Resolution :=
  if site.claims url then site.resolve url else { result := .ok [] }

/-- The entries of a URL; none when it cannot be resolved. -/
def entries (site : Site) (url : Url) : List Entry :=
  (site.expand url).entries

def targets (entries : List Entry) : List Url :=
  entries.filterMap fun
    | .queue url => some url
    | .file _ => none

/-- The targets that a URL leads to. -/
def children (site : Site) (url : Url) : List Url :=
  targets (site.entries url)

/-- Only finitely many targets can be reached: some finite list holds the root and all that its
members lead to. -/
def FinitelyReaches (site : Site) (root : Url) : Prop :=
  ∃ bound : List Url, root ∈ bound ∧ ∀ url ∈ bound, ∀ child ∈ site.children url, child ∈ bound

end Site

/-- What a request for a file has fetched. -/
def Exchange.fetched (exchange : Exchange) (url : Url) : Fetched :=
  match exchange.result with
  | .error e => ⟨.error (.request e), exchange.requests⟩
  | .ok page =>
    if !isSuccessStatus page.status then ⟨.error (.status page.status url), exchange.requests⟩
    else if page.truncate then ⟨.error (.request .body), exchange.requests⟩
    else ⟨.ok page.body, exchange.requests⟩

namespace Registry

/-- The site that handlers make of what comes back for each URL that is requested. -/
def siteBy (registry : Registry) (get : Url → Exchange) : Site where
  claims url := (registry.find? url).isSome
  resolve url :=
    match registry.find? url with
    | some handler => handler.resolveBy registry.naming get url
    | none => { result := .ok [] }
  fetch url := (get url).fetched url

theorem resolve_siteBy {registry : Registry} {url : Url} {handler : Handler}
    (found : registry.find? url = some handler) (get : Url → Exchange) :
    (registry.siteBy get).resolve url = handler.resolveBy registry.naming get url := by
  simp only [siteBy, found]

/-- The site that handlers make of a web. -/
def site (registry : Registry) (web : Web) : Site :=
  registry.siteBy web.get

end Registry
end BatchFetch
