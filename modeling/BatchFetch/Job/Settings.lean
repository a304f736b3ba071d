import BatchFetch.Files.Path
import BatchFetch.Json.Printer
import BatchFetch.Log
import BatchFetch.Store.Basic
import BatchFetch.Text.Blank
import BatchFetch.Url.Basic

namespace BatchFetch

/-- What to do when the destination of a file exists. -/
inductive SkipMode where
  /-- Fetch it again. -/
  | disabled
  /-- Leave it alone. -/
  | existing
  /-- Leave it alone, and abort the target after so many skipped files in a row. -/
  | abort (limit : Nat)
  deriving DecidableEq, Repr, Inhabited

/-- A decimal number of 32 bits, with or without a plus sign. -/
def parseUInt32? (text : List Char) : Option Nat :=
  let digits := match text with
    | '+' :: rest => rest
    | text => text
  (Text.number? 10 digits).bind fun n => if n < UInt32.size then some n else none

namespace SkipMode

/-- The mode that a text asks for: `abort` or `terminate`, with a count behind a colon. -/
def ofText (mode : String) : SkipMode :=
  let (name, count) := (Text.cutFirst ':' mode.toList).getD (mode.toList, ['1'])
  if String.ofList name = "abort" ∨ String.ofList name = "terminate" then
    .abort (max ((parseUInt32? (Text.trim count)).getD 1) 1)
  else .existing

def ofValue : Option Json → SkipMode × List Event
  | none | some (.bool true) => (existing, [])
  | some (.bool false) => (disabled, [])
  | some (.str mode) => (ofText mode, [])
  | some other =>
    (existing, [.warn s!"Invalid 'skip' value {other.render}, skipping existing files"])

end SkipMode

structure DownloadSettings where
  baseDirectory : String := "."
  filename : Option String := none
  skip : SkipMode := .existing
  deriving DecidableEq, Repr, Inhabited

namespace DownloadSettings

def directoryOf : Option Json → String × List Event
  | some (.str dir) => (dir, [])
  | some other => (".", [.warn s!"Invalid 'base-directory' value {other.render}"])
  | none => (".", [])

def filenameOf : Option Json → Option String × List Event
  | some (.str template) => (some template, [])
  | some .null | none => (none, [])
  | some other => (none, [.warn s!"Invalid 'filename' value {other.render}"])

/-- The section in which the options of a handler are looked up. -/
def handlerSection (handler : String) : String :=
  "extractor." ++ handler

def ofStore (store : Store) (handler : String) : DownloadSettings × List Event :=
  let look (key : String) : Option Json := store.interpolate? (handlerSection handler) key
  let (baseDirectory, first) := directoryOf (look "base-directory")
  let (filename, second) := filenameOf (look "filename")
  let (skip, third) := SkipMode.ofValue (look "skip")
  ({ baseDirectory, filename, skip }, first ++ second ++ third)

/-- Fill in a file name template: the stem, then the extension. -/
def renderName (template stem extension : String) : String :=
  Text.replaced (Text.replaced template "\x7bfilename\x7d" stem) "\x7bextension\x7d" extension

/-- The last segment of a URL, or a name of its own where there is none. -/
def segmentOf (url : Url) : String :=
  match url.lastSegment? with
  | none | some "" => "index"
  | some segment => segment

/-- The name under which the file of a URL is stored. -/
def fileName (settings : DownloadSettings) (url : Url) : String :=
  let segment := segmentOf url
  match settings.filename with
  | none => segment
  | some template =>
    let stem := ((Url.splitName segment).map (·.1)).getD segment
    renderName template stem (url.extension?.getD "")

/-- The path under which the file of a URL is stored. -/
def destination (settings : DownloadSettings) (url : Url) : String :=
  Path.join settings.baseDirectory (settings.fileName url)

end DownloadSettings
end BatchFetch
