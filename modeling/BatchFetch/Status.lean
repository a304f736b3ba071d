namespace BatchFetch

/-- A mask of failure bits. -/
structure ExitStatus where
  bits : UInt32
  deriving DecidableEq, Repr, Inhabited

namespace ExitStatus

def success : ExitStatus := ⟨0⟩

/-- An error of no particular kind, such as a file that cannot be stored. -/
def general : ExitStatus := ⟨1⟩

/-- A request failed or was answered with an error. -/
def http : ExitStatus := ⟨4⟩

/-- The server does not have what was asked for. -/
def missing : ExitStatus := ⟨8⟩

/-- No handler accepts the target. -/
def noHandler : ExitStatus := ⟨64⟩

def union (a b : ExitStatus) : ExitStatus :=
  ⟨a.bits ||| b.bits⟩

instance : OrOp ExitStatus := ⟨union⟩

/-- Whether all bits of `part` are set. -/
def contains (status part : ExitStatus) : Bool :=
  status.bits &&& part.bits == part.bits

def isSuccess (status : ExitStatus) : Bool :=
  status.bits == 0

/-- The exit code of a process: the low byte of the mask. -/
def code (status : ExitStatus) : Nat :=
  (status.bits &&& 0xFF).toNat

end ExitStatus
end BatchFetch
