import BatchFetch.Files.Path
import BatchFetch.Text.Utf8

namespace BatchFetch

/-- Why an operation on a file or a stream fails. The last three are failures that no operating
system call has reported, known by their text alone. -/
inductive IoError where
  | notFound | permissionDenied | alreadyExists | notDirectory | isDirectory | deviceFull
  | brokenPipe | nameTooLong | nulInPath | notUtf8
  | pipeClosed | denied
  | other (text : String)
  deriving DecidableEq, Repr, Inhabited

def IoError.message : IoError → String
  | notFound => "No such file or directory (os error 2)"
  | permissionDenied => "Permission denied (os error 13)"
  | alreadyExists => "File exists (os error 17)"
  | notDirectory => "Not a directory (os error 20)"
  | isDirectory => "Is a directory (os error 21)"
  | deviceFull => "No space left on device (os error 28)"
  | brokenPipe => "Broken pipe (os error 32)"
  | nameTooLong => "File name too long (os error 36)"
  | nulInPath => "file name contained an unexpected NUL byte"
  | notUtf8 => "stream did not contain valid UTF-8"
  | pipeClosed => "broken pipe"
  | denied => "permission denied"
  | other text => text

/-- Whether the failure says that the reader of a pipe has gone. -/
def IoError.isBrokenPipe : IoError → Bool
  | brokenPipe | pipeClosed => true
  | _ => false

/-- The components of a place, from the root. -/
abbrev Place := List String

inductive Node where
  | file (content : Bytes)
  | dir
  deriving DecidableEq, Inhabited

/-- Why an operation that changes something fails, and how much of what it was to write has arrived;
there is no such number if nothing was reached at all. -/
structure Fault where
  error : IoError
  kept : Option Nat := none
  deriving DecidableEq, Repr, Inhabited

/-- The nodes below the root, and the current directory. The device may fail: it is known in advance
which of the next operations it does not carry out, and it carries out all that are not listed. -/
structure FileSystem where
  nodes : List (Place × Node) := []
  current : Place := []
  faults : List (Option Fault) := []
  deriving DecidableEq, Inhabited

namespace FileSystem

/-- The longest name of a component, in bytes. -/
def maxName : Nat := 255

/-- The length in bytes at which a path is too long. -/
def maxPath : Nat := 4096

/-- The node at a place; the root is a directory. -/
def node? (fs : FileSystem) (place : Place) : Option Node :=
  if place = [] then some .dir else fs.nodes.lookup place

/-- Put a node at a place; an old node there is replaced. -/
def putNode (place : Place) (node : Node) : List (Place × Node) → List (Place × Node)
  | [] => [(place, node)]
  | (p, old) :: rest =>
    if p = place then (place, node) :: rest else (p, old) :: putNode place node rest

def put (fs : FileSystem) (place : Place) (node : Node) : FileSystem :=
  { fs with nodes := putNode place node fs.nodes }

/-- How the device fails in the next operation, if it does. -/
def fault? (fs : FileSystem) : Option Fault :=
  fs.faults.head?.join

/-- The file system after the device has been asked for one more operation. -/
def asked (fs : FileSystem) : FileSystem :=
  { fs with faults := fs.faults.tail }

/-- Where a path leads: to a directory, to a file, or to a name that its directory does not hold;
in the last case it is noted whether a slash follows the name. -/
inductive Target where
  | dir (place : Place)
  | file (place : Place) (content : Bytes)
  | missing (place : Place) (slash : Bool)
  deriving DecidableEq

/-- Follow components from a directory. -/
def follow (fs : FileSystem) (place : Place) : List String → Except IoError Target
  | [] => .ok (.dir place)
  | name :: rest =>
    if Path.isIdle name then fs.follow place rest
    else if name = ".." then fs.follow place.dropLast rest
    else if maxName < name.utf8ByteSize then .error .nameTooLong
    else
      let place := place ++ [name]
      match fs.node? place with
      | some .dir => fs.follow place rest
      | some (.file content) =>
        if rest = [] then .ok (.file place content) else .error .notDirectory
      | none => if rest.all (·.isEmpty) then .ok (.missing place (rest ≠ [])) else .error .notFound

/-- Follow a path. -/
def locate (fs : FileSystem) (path : String) : Except IoError Target :=
  if path.toList.contains '\x00' then .error .nulInPath
  else if path.isEmpty then .error .notFound
  else if maxPath ≤ path.utf8ByteSize then .error .nameTooLong
  else fs.follow (if Path.isAbsolute path then [] else fs.current) (Path.pieces path)

def pathExists (fs : FileSystem) (path : String) : Bool :=
  match fs.locate path with
  | .ok (.dir _) | .ok (.file _ _) => true
  | _ => false

def isDir (fs : FileSystem) (path : String) : Bool :=
  match fs.locate path with
  | .ok (.dir _) => true
  | _ => false

/-- Open a path for reading. A directory can be opened, but not read. -/
def openRead (fs : FileSystem) (path : String) : Except IoError (Except IoError Bytes) :=
  match fs.locate path with
  | .error e => .error e
  | .ok (.missing _ _) => .error .notFound
  | .ok (.dir _) => .ok (.error .isDirectory)
  | .ok (.file _ content) => .ok (.ok content)

def read (fs : FileSystem) (path : String) : Except IoError Bytes :=
  (fs.openRead path).bind id

def readText (fs : FileSystem) (path : String) : Except IoError String :=
  match fs.read path with
  | .error e => .error e
  | .ok bytes =>
    match Text.Utf8.decode? bytes with
    | some text => .ok (String.ofList text)
    | none => .error .notUtf8

/-- The place that writing to a path creates or changes, and the old content. -/
def writeTarget (fs : FileSystem) (path : String) : Except IoError (Place × Bytes) :=
  match fs.locate path with
  | .error e => .error e
  | .ok (.dir _) => .error .isDirectory
  | .ok (.missing _ true) => .error .isDirectory
  | .ok (.missing place false) => .ok (place, [])
  | .ok (.file place content) => .ok (place, content)

/-- Write bytes to the file at a place, behind some that it starts with. The file is there before the
bytes arrive, so that a device that fails in between leaves a part of them. -/
def transfer (fs : FileSystem) (place : Place) (front bytes : Bytes) :
    Except Fault Unit × FileSystem :=
  match fs.fault? with
  | none => (.ok (), fs.asked.put place (.file (front ++ bytes)))
  | some fault =>
    match fault.kept with
    | none => (.error fault, fs.asked)
    | some kept => (.error fault, fs.asked.put place (.file (front ++ bytes.take kept)))

/-- Store a file; an old file at the path is replaced. -/
def write (fs : FileSystem) (path : String) (content : Bytes) : Except Fault Unit × FileSystem :=
  match fs.writeTarget path with
  | .error error => (.error { error }, fs)
  | .ok (place, _) => fs.transfer place [] content

/-- Write behind the end of a file. -/
def append (fs : FileSystem) (path : String) (content : Bytes) : Except Fault Unit × FileSystem :=
  match fs.writeTarget path with
  | .error error => (.error { error }, fs)
  | .ok (place, old) => fs.transfer place old content

/-- Create a file unless it is there. -/
def openAppend (fs : FileSystem) (path : String) : Except Fault Unit × FileSystem :=
  fs.append path []

def makeDir (fs : FileSystem) (path : String) : Except IoError Unit × FileSystem :=
  match fs.locate path with
  | .error e => (.error e, fs)
  | .ok (.missing place _) =>
    match fs.fault? with
    | none => (.ok (), fs.asked.put place .dir)
    | some fault => (.error fault.error, fs.asked)
  | .ok _ => (.error .alreadyExists, fs)

/-- The paths of the directories that lead to a path, innermost first and the path itself
included. The fuel is the length of the path. -/
def ancestors : Nat → String → List String
  | 0, _ => []
  | fuel + 1, path =>
    if path.isEmpty then []
    else path :: ((Path.parent? path).map (ancestors fuel)).getD []

/-- Create the directories of a list, outermost last, from the first that can be created on.
Directories that were created before a failure stay. -/
def makeDirs (fs : FileSystem) : List String → Except IoError Unit × FileSystem
  | [] => (.ok (), fs)
  | path :: outer =>
    let settle (fs : FileSystem) (error : IoError) : Except IoError Unit × FileSystem :=
      (if fs.isDir path then .ok () else .error error, fs)
    match fs.makeDir path with
    | (.ok _, fs) => (.ok (), fs)
    | (.error .notFound, fs) =>
      match fs.makeDirs outer with
      | (.error error, fs) => (.error error, fs)
      | (.ok _, fs) =>
        match fs.makeDir path with
        | (.ok _, fs) => (.ok (), fs)
        | (.error error, fs) => settle fs error
    | (.error error, fs) => settle fs error

/-- Create a directory with all directories above it. -/
def createDirAll (fs : FileSystem) (path : String) : Except IoError Unit × FileSystem :=
  fs.makeDirs (ancestors path.length path)

end FileSystem
end BatchFetch
