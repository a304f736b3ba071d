import BatchFetch.Batch.Source
import BatchFetch.CommandLine.Setting
import BatchFetch.Log.Filter

namespace BatchFetch

inductive ValueOption where
  | inputFile | setting | destination | filename | abort | terminate | config | writeUnsupported
  | logLevel
  deriving DecidableEq, Repr, Inhabited

inductive Flag where
  | getUrls | ignoreConfig | verbose | quiet | help | version
  deriving DecidableEq, Repr, Inhabited

inductive CommandOption where
  | valued (option : ValueOption)
  | flag (flag : Flag)
  deriving DecidableEq, Repr, Inhabited

namespace CommandOption

def ofLetter? : Char → Option CommandOption
  | 'i' => some (valued .inputFile)
  | 'o' => some (valued .setting)
  | 'd' => some (valued .destination)
  | 'f' => some (valued .filename)
  | 'c' => some (valued .config)
  | 'l' => some (valued .logLevel)
  | 'g' => some (flag .getUrls)
  | 'v' => some (flag .verbose)
  | 'q' => some (flag .quiet)
  | 'h' => some (flag .help)
  | 'V' => some (flag .version)
  | _ => none

/-- The option of a long name, which may not be shortened. -/
def ofName? : String → Option CommandOption
  | "input-file" => some (valued .inputFile)
  | "option" => some (valued .setting)
  | "destination" => some (valued .destination)
  | "filename" => some (valued .filename)
  | "abort" => some (valued .abort)
  | "terminate" => some (valued .terminate)
  | "config" => some (valued .config)
  | "write-unsupported" => some (valued .writeUnsupported)
  | "log-level" => some (valued .logLevel)
  | "get-urls" => some (flag .getUrls)
  | "ignore-config" => some (flag .ignoreConfig)
  | "verbose" => some (flag .verbose)
  | "quiet" => some (flag .quiet)
  | "help" => some (flag .help)
  | "version" => some (flag .version)
  | _ => none

end CommandOption

/-- Why a command line is not carried out: something is wrong with it, or it asks for information
about the program only. -/
inductive Refusal where
  | missingTargets
  | unknownOption
  /-- A value is missing, or is none of those that are allowed. -/
  | badValue
  | unreadableValue
  /-- Two options exclude each other, or an option is given twice. -/
  | conflict
  | unwantedValue
  | help
  | version
  deriving DecidableEq, Repr, Inhabited

def Refusal.exitCode : Refusal → Nat
  | help | version => 0
  | _ => 2

structure Arguments where
  urls : List String := []
  inputFiles : List Source := []
  settings : List Setting := []
  destination : Option String := none
  filename : Option String := none
  abort : Option Nat := none
  terminate : Option Nat := none
  /-- How often URLs are asked for instead of downloads. -/
  getUrls : Nat := 0
  configFiles : List String := []
  ignoreConfig : Bool := false
  writeUnsupported : Option String := none
  logLevel : Option Verbosity := none
  verbose : Bool := false
  quiet : Bool := false
  deriving DecidableEq, Inhabited

def Arguments.verbosity (arguments : Arguments) : Verbosity :=
  match arguments.logLevel with
  | some level => level
  | none => if arguments.verbose then .debug else if arguments.quiet then .error else .info

end BatchFetch
