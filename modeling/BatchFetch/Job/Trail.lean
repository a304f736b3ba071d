import BatchFetch.Handler.Basic

namespace BatchFetch

/-- The failure bits so far, the URLs that servers were asked for, and the events. -/
structure Trail where
  status : ExitStatus := .success
  requests : List Url := []
  events : List Event := []
  deriving DecidableEq, Inhabited

namespace Trail

def note (trail : Trail) (event : Event) : Trail :=
  { trail with events := trail.events ++ [event] }

/-- Report a failure that does not stop the job. -/
def fail (trail : Trail) (status : ExitStatus) (message : String) : Trail :=
  { trail.note (.error message) with status := trail.status ||| status }

def asked (trail : Trail) (requests : List Url) : Trail :=
  { trail with requests := trail.requests ++ requests }

/-- Report a target that nothing claims. -/
def unclaimed (trail : Trail) (url : Url) : Trail :=
  trail.fail .noHandler s!"No suitable handler found for '{url.text}'"

/-- Report how resolving a target went. -/
def resolved (trail : Trail) (url : Url) (resolution : Resolution) : Trail :=
  let trail := trail.asked resolution.requests
  let trail := { trail with events := trail.events ++ resolution.events }
  match resolution.result with
  | .ok _ => trail
  | .error e => trail.fail e.exitStatus s!"{url.text}: {e.message}"

end Trail
end BatchFetch
