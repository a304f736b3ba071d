import BatchFetch.CommandLine.Words

namespace BatchFetch.CommandLine

def nonempty (value : String) : Except Refusal String :=
  if value.isEmpty then .error .badValue else .ok value

/-- A count of 32 bits. It is read as a signed number. -/
def count (value : String) : Except Refusal Nat :=
  let (negative, digits) := Text.cutSign value.toList
  match Text.number? 10 digits with
  | some n => if n < UInt32.size && (!negative || n == 0) then .ok n else .error .unreadableValue
  | none => .error .unreadableValue

/-- Set what may be set once. -/
def once {α : Type} (old : Option α) (new : Except Refusal α) : Except Refusal (Option α) :=
  if old.isSome then .error .conflict else new.map some

/-- Raise a flag that may be raised once. -/
def raise (old : Bool) : Except Refusal Bool :=
  if old then .error .conflict else .ok true

/-- The largest number of times that URLs can be asked for. -/
def maxGetUrls : Nat := 255

def takeValue (arguments : Arguments) (option : ValueOption) (value : String) :
    Except Refusal Arguments :=
  match option with
  | .inputFile =>
    .ok { arguments with inputFiles := arguments.inputFiles ++ [Source.parse value] }
  | .setting =>
    match Setting.parse value with
    | .ok setting => .ok { arguments with settings := arguments.settings ++ [setting] }
    | .error _ => .error .unreadableValue
  | .destination =>
    (once arguments.destination (nonempty value)).map ({ arguments with destination := · })
  | .filename => (once arguments.filename (.ok value)).map ({ arguments with filename := · })
  | .abort => (once arguments.abort (count value)).map ({ arguments with abort := · })
  | .terminate => (once arguments.terminate (count value)).map ({ arguments with terminate := · })
  | .config =>
    (nonempty value).map fun path =>
      { arguments with configFiles := arguments.configFiles ++ [path] }
  | .writeUnsupported =>
    (once arguments.writeUnsupported (nonempty value)).map
      ({ arguments with writeUnsupported := · })
  | .logLevel =>
    let level := match Verbosity.ofName? value with
      | some level => .ok level
      | none => .error .badValue
    (once arguments.logLevel level).map ({ arguments with logLevel := · })

def takeFlag (arguments : Arguments) : Flag → Except Refusal Arguments
  | .getUrls => .ok { arguments with getUrls := min (arguments.getUrls + 1) maxGetUrls }
  | .ignoreConfig =>
    (raise arguments.ignoreConfig).map ({ arguments with ignoreConfig := · })
  | .verbose => (raise arguments.verbose).map ({ arguments with verbose := · })
  | .quiet => (raise arguments.quiet).map ({ arguments with quiet := · })
  | .help => .error .help
  | .version => .error .version

def take (arguments : Arguments) : Mark → Except Refusal Arguments
  | .attached option value | .spaced option (some value) => takeValue arguments option value
  | .spaced _ none => .error .badValue
  | .flag flag => takeFlag arguments flag
  | .target word => .ok { arguments with urls := arguments.urls ++ [word] }
  | .fault reason => .error reason

/-- The fault that goes before a mark: one right behind an option whose value is a word of
its own. -/
def faultBehind? : Mark → List Mark → Option Refusal
  | .spaced _ _, .fault reason :: _ => some reason
  | _, _ => none

def takeAll (arguments : Arguments) : List Mark → Except Refusal Arguments
  | [] => .ok arguments
  | mark :: rest =>
    match faultBehind? mark rest with
    | some reason => .error reason
    | none => (take arguments mark).bind fun arguments => takeAll arguments rest

/-- Whether two options are given that exclude each other. -/
def clashes (arguments : Arguments) : Bool :=
  (arguments.abort.isSome && arguments.terminate.isSome) || (arguments.verbose && arguments.quiet)

def check (arguments : Arguments) : Except Refusal Arguments :=
  if clashes arguments then .error .conflict
  else if arguments.urls.isEmpty && arguments.inputFiles.isEmpty then .error .missingTargets
  else .ok arguments

def parse (words : List String) : Except Refusal Arguments :=
  (takeAll {} (marks words)).bind check

end BatchFetch.CommandLine
