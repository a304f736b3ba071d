namespace BatchFetch

/-- The name under which the program keeps its configuration and logs its messages. -/
def programName : String := "haul"

/-- The levels of recorded log messages, least verbose first. -/
inductive Level where
  | error | warn | info
  deriving DecidableEq, Repr, Inhabited

def Level.name : Level → String
  | error => "ERROR"
  | warn => "WARN"
  | info => "INFO"

/-- Something that is shown to the user while the program runs. -/
inductive Event where
  | log (level : Level) (message : String)
  | progress (line : String)
  deriving DecidableEq, Repr, Inhabited

namespace Event

def error (message : String) : Event := .log .error message
def warn (message : String) : Event := .log .warn message
def info (message : String) : Event := .log .info message

end Event
end BatchFetch
