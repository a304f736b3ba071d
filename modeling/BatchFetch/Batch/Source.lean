import BatchFetch.Batch.Lines
import BatchFetch.Files.System

namespace BatchFetch

/-- Bytes that end, or that a failure cuts off. -/
structure ByteStream where
  bytes : Bytes
  failure : Option IoError := none
  deriving DecidableEq, Inhabited

namespace ByteStream

def isLineFeed (b : UInt8) : Bool :=
  b == 10

/-- A line that ended with a line feed loses one carriage return. -/
def dropReturn (line : Bytes) : Bytes :=
  if line.getLast? = some 13 then line.dropLast else line

/-- Read the bytes of a line, or nothing at the end; what is left comes with them. A last line that a
failure cuts off is lost. -/
def nextLine (stream : ByteStream) : Option (Except IoError Bytes) × ByteStream :=
  let line := stream.bytes.takeWhile (!isLineFeed ·)
  match stream.bytes.dropWhile (!isLineFeed ·) with
  | _ :: rest => (some (.ok (dropReturn line)), { stream with bytes := rest })
  | [] =>
    let ended := { stream with bytes := [] }
    match stream.failure with
    | some cause => (some (.error cause), ended)
    | none => (if line.isEmpty then none else some (.ok line), ended)

theorem nextLine_length {stream after : ByteStream} {line : Bytes}
    (read : stream.nextLine = (some (.ok line), after)) :
    after.bytes.length < stream.bytes.length := by
  have parts := congrArg List.length (stream.bytes.takeWhile_append_dropWhile (p := (!isLineFeed ·)))
  rw [List.length_append] at parts
  unfold nextLine at read
  simp only at read
  split at read
  · rename_i rest found
    rw [found, List.length_cons] at parts
    cases read
    simp only
    omega
  · split at read
    · cases read
    · split at read
      · cases read
      · rename_i some
        cases read
        rw [List.isEmpty_iff, ← List.length_eq_zero_iff] at some
        simp only [List.length_nil]
        omega

/-- The lines up to the first failure, that failure if there is one, and what is left. -/
def lines (stream : ByteStream) : List String × Option IoError × ByteStream :=
  match _read : stream.nextLine with
  | (none, left) => ([], none, left)
  | (some (.error cause), left) => ([], some cause, left)
  | (some (.ok line), left) =>
    match Text.Utf8.decode? line with
    | none => ([], some .notUtf8, left)
    | some text =>
      let (more, failure, last) := left.lines
      (String.ofList text :: more, failure, last)
  termination_by stream.bytes.length
  decreasing_by exact nextLine_length _read

end ByteStream

inductive Source where
  | stdin
  | file (path : String)
  deriving DecidableEq, Repr, Inhabited

/-- A dash names standard input. -/
def Source.parse (text : String) : Source :=
  if text = "-" then .stdin else .file text

def Source.name : Source → String
  | stdin => "stdin"
  | file path => path

inductive SourceError where
  | open (path : String) (cause : IoError)
  | read (origin : String) (cause : IoError)
  deriving DecidableEq, Inhabited

def SourceError.message : SourceError → String
  | .open path cause => s!"cannot open '{path}': {cause.message}"
  | .read origin cause => s!"error reading {origin}: {cause.message}"

/-- What reading a source has led to: the number of items that it has added or its failure, the list
of items, and log events. -/
structure SourceReport where
  result : Except SourceError Nat
  items : List Item
  events : List Event := []

/-- Read a stream up to its first failure and append its items to a list. What is left of the stream
comes with the report. -/
def ByteStream.readInto (stream : ByteStream) (origin : String) (items : List Item) :
    SourceReport × ByteStream :=
  let (lines, failure, left) := stream.lines
  let (all, reader) := ({ origin } : LineReader).appendItems items lines
  let result :=
    match failure with
    | some cause => .error (.read origin cause)
    | none => .ok (all.length - items.length)
  (⟨result, all, reader.events⟩, left)

/-- The items of a stream alone. -/
def ByteStream.items (stream : ByteStream) (origin : String) : SourceReport :=
  (stream.readInto origin []).1

/-- What has been read so far, and what is left of standard input. -/
structure Reading where
  items : List Item := []
  events : List Event := []
  stdin : ByteStream

/-- What is found at the paths of files: a stream, unless the path cannot be opened. -/
abbrev Opening := String → Except IoError ByteStream

def FileSystem.opening (fs : FileSystem) : Opening := fun path =>
  match fs.openRead path with
  | .error cause => .error cause
  | .ok (.error cause) => .ok ⟨[], some cause⟩
  | .ok (.ok content) => .ok ⟨content, none⟩

/-- The stream of a source, if it can be opened. -/
def Source.stream? (opening : Opening) (stdin : ByteStream) : Source → Except SourceError ByteStream
  | .stdin => .ok stdin
  | .file path => (opening path).mapError (.open path)

/-- Read a source into a list of items. What is left of standard input comes with the report. -/
def Source.readInto (opening : Opening) (source : Source) (items : List Item) (stdin : ByteStream) :
    SourceReport × ByteStream :=
  match source.stream? opening stdin with
  | .error e => (⟨.error e, items, []⟩, stdin)
  | .ok stream =>
    let (report, left) := stream.readInto source.name items
    (report, if source = .stdin then left else stdin)

/-- Read a source after others. A source that fails is reported as a warning. -/
def Source.readNext (opening : Opening) (reading : Reading) (source : Source) : Reading :=
  let (report, left) := source.readInto opening reading.items reading.stdin
  let failed :=
    match report.result with
    | .ok _ => []
    | .error e => [.warn s!"input file: {e.message}"]
  ⟨report.items, reading.events ++ report.events ++ failed, left⟩

/-- The items of all sources, and the log events. All sources that name standard input share it. -/
def Source.readAllFrom (opening : Opening) (stdin : ByteStream) (sources : List Source) :
    List Item × List Event :=
  let reading := sources.foldl (readNext opening) { stdin }
  (reading.items, reading.events)

/-- Read sources from a file system. -/
def Source.readAll (fs : FileSystem) (stdin : Bytes) (sources : List Source) :
    List Item × List Event :=
  readAllFrom fs.opening ⟨stdin, none⟩ sources

/-- What each source gives alone. -/
def Source.reports (fs : FileSystem) (stdin : Bytes) : List Source → List SourceReport
  | [] => []
  | source :: rest =>
    let (report, left) := source.readInto fs.opening [] ⟨stdin, none⟩
    report :: Source.reports fs left.bytes rest

end BatchFetch
