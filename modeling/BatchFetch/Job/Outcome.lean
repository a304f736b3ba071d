import BatchFetch.Status
import BatchFetch.ErrorChain

namespace BatchFetch

inductive JobOutcome where
  /-- It ran to its end; the bits tell of failures that did not stop it. -/
  | completed (status : ExitStatus)
  /-- It was cut short on purpose. -/
  | aborted
  /-- No handler accepts the target. -/
  | notFound
  /-- It cannot go on, and neither can the batch. -/
  | fatal (error : ErrorChain)
  deriving DecidableEq, Repr, Inhabited

/-- The ways in which a job fails to produce a status. -/
inductive JobFailure where
  | aborted
  | notFound
  | fatal (error : ErrorChain)
  deriving DecidableEq, Repr, Inhabited

def JobFailure.message : JobFailure → String
  | aborted => "target aborted"
  | notFound => "no suitable handler found"
  | fatal error => error.headline

def JobFailure.outcome : JobFailure → JobOutcome
  | aborted => .aborted
  | notFound => .notFound
  | fatal error => .fatal error

/-- A job that computes a status or fails. -/
def JobOutcome.ofResult : Except JobFailure ExitStatus → JobOutcome
  | .ok status => .completed status
  | .error failure => failure.outcome

end BatchFetch
