import BatchFetch.Files.System

namespace BatchFetch

/-- The writes that a stream has accepted, how many it was asked for, and with which failure it
refuses the write of a given number (counted from zero) or a flush. -/
structure OutStream where
  pieces : List String := []
  attempts : Nat := 0
  refuses : Nat → Option IoError := fun _ => none
  flushFault : Option IoError := none

namespace OutStream

instance : Inhabited OutStream := ⟨{}⟩

/-- What is written for a line: its text, and then the line feed. -/
def piecesOf (line : String) : List String :=
  [line, "\n"]

/-- A stream that refuses every line from the given number on. -/
def refusingFrom (limit : Nat) (error : IoError) : OutStream :=
  { refuses := fun attempt => if 2 * limit ≤ attempt then some error else none }

def write (stream : OutStream) (piece : String) : Except IoError Unit × OutStream :=
  let tried := { stream with attempts := stream.attempts + 1 }
  match stream.refuses stream.attempts with
  | some error => (.error error, tried)
  | none => (.ok (), { tried with pieces := stream.pieces ++ [piece] })

/-- Write a line; after a failure nothing more of it is written. -/
def writeLine (stream : OutStream) (line : String) : Except IoError Unit × OutStream :=
  match stream.write line with
  | (.error error, stream) => (.error error, stream)
  | (.ok (), stream) => stream.write "\n"

def flush (stream : OutStream) : Except IoError Unit :=
  match stream.flushFault with
  | some error => .error error
  | none => .ok ()

/-- Everything that was accepted. -/
def text (stream : OutStream) : String :=
  String.join stream.pieces

end OutStream
end BatchFetch
