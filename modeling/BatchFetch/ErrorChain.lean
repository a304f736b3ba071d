import BatchFetch.Files.System

namespace BatchFetch

inductive ErrorLink where
  | text (message : String)
  | io (error : IoError)
  deriving DecidableEq, Repr, Inhabited

def ErrorLink.message : ErrorLink → String
  | text message => message
  | io error => error.message

/-- A chain of errors, outermost first. -/
abbrev ErrorChain := List ErrorLink

namespace ErrorChain

def headline (chain : ErrorChain) : String :=
  (chain.head?.map ErrorLink.message).getD ""

def message (chain : ErrorChain) : String :=
  ": ".intercalate (chain.map ErrorLink.message)

def inContext (context : String) (chain : ErrorChain) : ErrorChain :=
  .text context :: chain

/-- Whether some link says that the reader of a pipe has gone. -/
def hasBrokenPipe (chain : ErrorChain) : Bool :=
  chain.any fun
    | .io error => error.isBrokenPipe
    | .text _ => false

end ErrorChain
end BatchFetch
