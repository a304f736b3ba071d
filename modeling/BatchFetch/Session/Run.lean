import BatchFetch.Dispatch.Progress
import BatchFetch.Job.Kind
import BatchFetch.Session.Configuration

namespace BatchFetch

/-- What a session finds around it. -/
structure Surroundings where
  files : FileSystem
  stdin : Bytes := []
  stdout : OutStream := {}
  /-- What comes back for each URL that is requested. -/
  get : Url → Exchange := ({} : Web).get
  /-- The directory for configurations. -/
  configHome : String
  /-- The rules of the log filter that are set for the whole environment. -/
  logRules : Option String := none
  registry : Registry := .standard

/-- Why a session ends early: it cannot be set up, or a target ends the batch. -/
inductive SessionError where
  | setup (cause : ErrorChain)
  | dispatch (error : DispatchError)
  deriving DecidableEq, Repr, Inhabited

def SessionError.message : SessionError → String
  | setup cause => ErrorChain.message cause
  | dispatch error => error.message

/-- Whether the session ends because nobody reads its output any more. -/
def SessionError.isBrokenPipe : SessionError → Bool
  | setup cause => ErrorChain.hasBrokenPipe cause
  | dispatch error => ErrorChain.hasBrokenPipe error.error

/-- What a session leaves behind. -/
structure Finished where
  result : Except SessionError ExitStatus
  world : World
  events : List Event
  deriving Inhabited

namespace Session

def filter (arguments : Arguments) (around : Surroundings) : LogFilter :=
  .choose around.logRules arguments.verbosity

/-- All items of a session, and the events of reading them. -/
def collect (arguments : Arguments) (around : Surroundings) : List Item × List Event :=
  let (items, events) := Source.readAll around.files around.stdin arguments.inputFiles
  (arguments.urls.map .plain ++ items, events)

/-- The template of progress lines, if they are shown. -/
def progressTemplate? (arguments : Arguments) (around : Surroundings) (store : Store)
    (items : List Item) : Option String :=
  let several := 1 < items.length
  let visible := Verbosity.error.rank < (filter arguments around).verbosity.rank
  if several && visible then BatchFetch.progressTemplate? store else none

/-- Open the file for unsupported targets, if one is named. -/
def openUnsupported (arguments : Arguments) (files : FileSystem) :
    Except ErrorChain Unit × FileSystem :=
  match arguments.writeUnsupported with
  | none => (.ok (), files)
  | some path =>
    let (opened, files) := files.openAppend path
    (opened.mapError fun fault => .inContext s!"failed to open {path}" [.io fault.error], files)

/-- Dispatch items with or without progress lines. -/
def dispatch {σ : Type} (shop : Workshop σ) (template : Option String) (items : List Item)
    (store : Store) (state : σ) : Dispatched σ :=
  match template with
  | none => shop.dispatch items store state
  | some template => (shop.dispatchReported (.start items template {}) store state).1

/-- Process items under a configuration. -/
def process (arguments : Arguments) (around : Surroundings) (store : Store) (items : List Item) :
    Option Finished :=
  match openUnsupported arguments around.files with
  | (.error cause, files) => some ⟨.error (.setup cause), { files, out := around.stdout }, []⟩
  | (.ok _, files) =>
    let shop := World.workshop (.ofCount arguments.getUrls) around.registry around.get
      arguments.writeUnsupported
    let template := progressTemplate? arguments around store items
    let done := dispatch shop template items store (some { files, out := around.stdout })
    done.state.map fun world => ⟨done.result.mapError .dispatch, world, done.events⟩

/-- Run a session; nothing is left behind if one of its jobs never comes back. -/
def run (arguments : Arguments) (around : Surroundings) : Option Finished :=
  let (loaded, loading) := loadStore arguments around.files around.configHome
  match loaded with
  | .error cause =>
    some ⟨.error (.setup cause), { files := around.files, out := around.stdout }, loading⟩
  | .ok store =>
    let (items, reading) := collect arguments around
    (process arguments around store items).map fun finished =>
      { finished with events := loading ++ reading ++ finished.events }

end Session

namespace Finished

def exitCode (finished : Finished) : Nat :=
  match finished.result with
  | .ok status => status.code
  | .error _ => 1

/-- All events, with the error that ended the session. When nobody reads the output any more, there
is nobody to report that to. -/
def report (finished : Finished) : List Event :=
  match finished.result with
  | .ok _ => finished.events
  | .error e => if e.isBrokenPipe then finished.events else finished.events ++ [.error e.message]

end Finished

/-- The lines on which an event is shown. -/
def Event.lines : Event → List String
  | .log level message => (Text.pieces '\n' (level.name ++ " " ++ message).toList).map String.ofList
  | .progress line => (Text.pieces '\n' line.toList).map String.ofList

/-- The lines that a session shows on standard error. -/
def Session.screen (arguments : Arguments) (around : Surroundings) (finished : Finished) :
    List String :=
  (finished.report.filter (filter arguments around).shows).flatMap Event.lines

end BatchFetch
