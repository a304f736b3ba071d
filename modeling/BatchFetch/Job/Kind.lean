import BatchFetch.Dispatch.Basic
import BatchFetch.Dispatch.Sink
import BatchFetch.Job.Download
import BatchFetch.Job.Listing
import BatchFetch.Job.Reach

namespace BatchFetch

inductive JobKind where
  | download
  /-- List URLs down to a depth. -/
  | list (depth : Nat)
  deriving DecidableEq, Repr, Inhabited

/-- What jobs work on, and the URLs that servers were asked for. -/
structure World where
  files : FileSystem
  out : OutStream := {}
  requests : List Url := []
  deriving Inhabited

namespace JobKind

/-- The kind that a number of requests to list URLs selects. -/
def ofCount : Nat → JobKind
  | 0 => download
  | depth => list depth

def name : JobKind → String
  | download => "DownloadJob"
  | list _ => "ListUrlsJob"

/-- The download of a URL under some settings. It never comes back if more and more targets are
found. -/
def downloading (registry : Registry) (get : Url → Exchange) (url : Url)
    (settings : DownloadSettings) (world : World) : Option (JobOutcome × List Event × World) :=
  (Download.run? (registry.siteBy get) settings url world.files).map fun report =>
    let trail := report.state.trail
    (report.outcome, trail.events,
      { world with files := report.state.files, requests := world.requests ++ trail.requests })

/-- The listing of a URL down to a depth. -/
def listing (registry : Registry) (get : Url → Exchange) (url : Url) (depth : Nat) (world : World) :
    JobOutcome × List Event × World :=
  let report := Listing.run (registry.siteBy get) depth url world.out
  let trail := report.state.trail
  (report.outcome, trail.events,
    { world with out := report.state.out, requests := world.requests ++ trail.requests })

/-- The job of a URL that a handler claims, with the events of making it. A download reads its
options when it is made. -/
def job (kind : JobKind) (registry : Registry) (get : Url → Exchange) (url : Url)
    (handler : Handler) (store : Store) :
    List Event × (World → Option (JobOutcome × List Event × World)) :=
  match kind with
  | download =>
    let (settings, events) := DownloadSettings.ofStore store handler.name
    (events, downloading registry get url settings)
  | list depth => ([], fun world => some (listing registry get url depth world))

/-- Make and run the job of a URL that a handler claims. -/
def runClaimed (kind : JobKind) (registry : Registry) (get : Url → Exchange) (url : Url)
    (handler : Handler) (store : Store) (world : World) :
    Option (JobOutcome × List Event × World) :=
  let (events, job) := kind.job registry get url handler store
  (job world).map fun (outcome, more, world) => (outcome, events ++ more, world)

end JobKind

/-- A job that may never come back. The state is lost then, and the batch goes no further. -/
def Job.ofPartial {σ : Type} (job : σ → Option (JobOutcome × List Event × σ)) : Job (Option σ)
  | none => (.fatal [], [], none)
  | some state =>
    match job state with
    | none => (.fatal [], [], none)
    | some (outcome, events, state) => (outcome, events, some state)

/-- The factory of one kind of jobs. It makes a job for each target that is a URL with a handler. -/
def JobKind.factory (kind : JobKind) (registry : Registry) (get : Url → Exchange) :
    JobFactory (Option World) where
  create target store world :=
    match registry.findFor? target with
    | none => (.error .notFound, [], world)
    | some (url, handler) =>
      let (events, job) := kind.job registry get url handler store
      (.ok (.ofPartial job), events, world)

namespace World

/-- The end of a file as a sink. -/
def sink (path : String) : Sink (Option World) where
  write bytes
    | none => (.ok (), none)
    | some world =>
      let (written, files) := world.files.append path bytes
      (written.mapError Fault.error, some { world with files })
  flush world := (.ok (), world)

/-- The workshop that runs jobs of one kind, and notes targets in a file if one is given. -/
def workshop (kind : JobKind) (registry : Registry) (get : Url → Exchange)
    (unsupported : Option String) : Workshop (Option World) :=
  (kind.factory registry get).workshop (unsupported.map fun path => (sink path).record)

end World
end BatchFetch
