import BatchFetch.ErrorChain
import BatchFetch.Files.Stream
import BatchFetch.Job.Outcome
import BatchFetch.Job.Site
import BatchFetch.Job.Trail

namespace BatchFetch.Listing

structure State where
  out : OutStream
  trail : Trail := {}
  deriving Inhabited

/-- The handling of the entries of one target: the targets that are to be visited in turn, and why
the job cannot go on, if so. -/
structure Pass where
  found : List Url := []
  state : State
  failure : Option ErrorChain := none

namespace Pass

def emit (pass : Pass) (url : Url) : Pass :=
  let (written, out) := pass.state.out.writeLine url.text
  let pass := { pass with state := { pass.state with out } }
  match written with
  | .ok _ => pass
  | .error e => { pass with failure := some (ErrorChain.inContext "failed to write URL" [.io e]) }

def entry (site : Site) (deepest : Bool) (pass : Pass) (entry : Entry) : Pass :=
  if pass.failure.isSome then pass
  else
    match entry with
    | .file url => pass.emit url
    | .queue child =>
      if deepest then pass.emit child
      else if site.claims child then { pass with found := pass.found ++ [child] }
      else { pass with state := { pass.state with trail := pass.state.trail.unclaimed child } }

def run (site : Site) (deepest : Bool) (pass : Pass) (entries : List Entry) : Pass :=
  entries.foldl (Pass.entry site deepest) pass

/-- Resolve a target and handle its entries. -/
def target (site : Site) (deepest : Bool) (url : Url) (state : State) : Pass :=
  let resolution := site.expand url
  let state := { state with trail := state.trail.resolved url resolution }
  Pass.run site deepest { state } resolution.entries

theorem emit_found (pass : Pass) (url : Url) : (pass.emit url).found = pass.found := by
  simp only [emit]
  split <;> rfl

theorem run_found_of_deepest {site : Site} (entries : List Entry) (pass : Pass) :
    (pass.run site true entries).found = pass.found := by
  induction entries generalizing pass with
  | nil => rfl
  | cons entry rest ih =>
    show ((pass.entry site true entry).run site true rest).found = pass.found
    rw [ih]
    unfold Pass.entry
    split
    · rfl
    · split
      · exact emit_found pass _
      · exact emit_found pass _

/-- Only above the deepest level is there more to visit. -/
theorem target_found_of_deepest (site : Site) (url : Url) (state : State) :
    (target site true url state).found = [] :=
  run_found_of_deepest _ _

end Pass

/-- A queue after its first target has been handled: the others move up, and behind them stand
targets of a deeper level, none of them beyond the depth. -/
inductive Follows (depth : Nat) : List (Url × Nat) → List (Url × Nat) → Prop
  | intro {url : Url} {level : Nat} {rest found : List (Url × Nat)} :
      (∀ target ∈ found, level < target.2 ∧ target.2 ≤ depth) →
      Follows depth (rest ++ found) ((url, level) :: rest)

/-- If the queues whose targets have fewer levels below them have an end, so has a queue that has
some targets on the level in question, followed by such as have fewer levels below them. -/
theorem Follows.acc_append {depth below : Nat}
    (ended : ∀ queue, (∀ target ∈ queue, depth - target.2 < below) → Acc (Follows depth) queue)
    (left more : List (Url × Nat)) (atMost : ∀ target ∈ left, depth - target.2 ≤ below)
    (fewer : ∀ target ∈ more, depth - target.2 < below) : Acc (Follows depth) (left ++ more) := by
  induction left generalizing more with
  | nil => exact ended more fewer
  | cons target rest ih =>
    refine ⟨_, fun next follows => ?_⟩
    cases follows with
    | @intro url level _ found deeper =>
      have first : depth - level ≤ below := atMost (url, level) List.mem_cons_self
      show Acc (Follows depth) (rest ++ more ++ found)
      rw [List.append_assoc]
      refine ih (more ++ found) (fun other member => atMost other (List.mem_cons_of_mem _ member)) ?_
      intro other member
      rcases List.mem_append.1 member with old | new
      · exact fewer other old
      · have later := deeper other new
        omega

/-- No queue is followed by others without end. -/
theorem Follows.acc {depth : Nat} (below : Nat) (queue : List (Url × Nat))
    (bound : ∀ target ∈ queue, depth - target.2 < below) : Acc (Follows depth) queue := by
  induction below generalizing queue with
  | zero =>
    cases queue with
    | nil => exact ⟨_, fun _ follows => nomatch follows⟩
    | cons target rest => exact absurd (bound target List.mem_cons_self) (Nat.not_lt_zero _)
  | succ below ih =>
    rw [← List.append_nil queue]
    exact acc_append ih queue [] (fun target member => Nat.le_of_lt_succ (bound target member))
      fun _ absent => nomatch absent

theorem Follows.wellFounded (depth : Nat) : WellFounded (Follows depth) :=
  ⟨fun queue => Follows.acc (depth + 1) queue fun target _ =>
    Nat.lt_succ_of_le (Nat.sub_le depth target.2)⟩

/-- Visit the targets of a queue, in order. The answer tells why the job cannot go on, if so. -/
def visit (site : Site) (depth : Nat) (queue : List (Url × Nat)) (state : State) :
    Option ErrorChain × State :=
  match queue with
  | [] => (none, state)
  | (url, level) :: rest =>
    let pass := Pass.target site (depth ≤ level) url state
    match pass.failure with
    | some failure => (some failure, pass.state)
    | none => visit site depth (rest ++ pass.found.map (·, level + 1)) pass.state
  termination_by (Follows.wellFounded depth).wrap queue
  decreasing_by
    refine .intro fun target member => ?_
    obtain ⟨child, found, rfl⟩ := List.mem_map.1 member
    refine ⟨Nat.lt_succ_self level, Nat.succ_le_of_lt (Nat.lt_of_not_le fun deepest => ?_)⟩
    have none : pass.found = [] := by
      simp only [pass, deepest, decide_true]
      exact Pass.target_found_of_deepest site url state
    rw [none] at found
    cases found

structure Report where
  outcome : JobOutcome
  state : State
  deriving Inhabited

/-- Why a listing fails, or the bits that it has met. The stream is flushed at the end. -/
def result (failure : Option ErrorChain) (state : State) : Except JobFailure ExitStatus :=
  match failure, state.out.flush with
  | some failure, _ => .error (.fatal failure)
  | none, .error e => .error (.fatal (ErrorChain.inContext "failed to flush output" [.io e]))
  | none, .ok _ => .ok state.trail.status

/-- List a target down to a depth; the target itself is always resolved. -/
def run (site : Site) (depth : Nat) (root : Url) (out : OutStream) : Report :=
  let (failure, state) := visit site depth [(root, 1)] { out }
  ⟨.ofResult (result failure state), state⟩

end BatchFetch.Listing
