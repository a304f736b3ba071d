import BatchFetch.Batch.Item
import BatchFetch.Job.Outcome
import BatchFetch.Log
import BatchFetch.Store.Overlay

namespace BatchFetch

/-- A job works on a state `σ` that all jobs of a batch share. -/
abbrev Job (σ : Type) := σ → JobOutcome × List Event × σ

/-- What makes the jobs of a batch: a job for a target under the store that the target sees, or the
reason why there is none. -/
structure JobFactory (σ : Type) where
  create : String → Store → σ → Except JobFailure (Job σ) × List Event × σ

def JobFactory.run {σ : Type} (factory : JobFactory σ) (target : String) (store : Store)
    (state : σ) : JobOutcome × List Event × σ :=
  let (made, events, state) := factory.create target store state
  match made with
  | .ok job =>
    let (outcome, more, state) := job state
    (outcome, events ++ more, state)
  | .error failure => (failure.outcome, events, state)

/-- What runs the jobs of a batch, over a state `σ` that they share. -/
structure Workshop (σ : Type) where
  /-- Create and run the job of a target under the store that the target sees. -/
  run : String → Store → σ → JobOutcome × List Event × σ
  /-- Note a target that no handler accepts, if such targets are noted at all. -/
  record : Option (String → σ → Except IoError Unit × σ) := none

def JobFactory.workshop {σ : Type} (factory : JobFactory σ)
    (record : Option (String → σ → Except IoError Unit × σ)) : Workshop σ where
  run := factory.run
  record

structure DispatchError where
  target : String
  error : ErrorChain
  deriving DecidableEq, Repr, Inhabited

def DispatchError.message (e : DispatchError) : String :=
  s!"fatal error while processing '{e.target}': {ErrorChain.message e.error}"

structure Dispatched (σ : Type) where
  result : Except DispatchError ExitStatus
  store : Store
  state : σ
  events : List Event

namespace Workshop

variable {σ : Type}

/-- Note a target that no handler accepts; a failure to do so is only reported. -/
def recordUnsupported (shop : Workshop σ) (target : String) (state : σ) : List Event × σ :=
  match shop.record with
  | none => ([], state)
  | some record =>
    match record target state with
    | (.ok _, state) => ([], state)
    | (.error e, state) =>
      ([.warn s!"Failed to record unsupported target '{target}': {e.message}"], state)

/-- Turn the outcome of a target into a status or the error that ends the batch. -/
def settle (shop : Workshop σ) (target : String) (outcome : JobOutcome) (state : σ) :
    Except DispatchError ExitStatus × List Event × σ :=
  match outcome with
  | .completed status => (.ok status, [], state)
  | .aborted => (.ok .success, [], state)
  | .notFound =>
    let (events, state) := shop.recordUnsupported target state
    (.ok .noHandler, .error s!"No suitable handler found for '{target}'" :: events, state)
  | .fatal error => (.error ⟨target, error⟩, [], state)

/-- Run the job of an item. A plain target sees the store as it is; a target with directives sees
the global ones written and the others laid over, and leaves the global ones behind. -/
def runItem (shop : Workshop σ) (item : Item) (store : Store) (state : σ) :
    (JobOutcome × List Event × σ) × Store :=
  match item with
  | .plain target => (shop.run target store state, store)
  | .enriched target globals locals =>
    let store := store.setAll (globals.map Directive.toSetting)
    let (visible, notes) := store.overlay (locals.map Directive.toSetting)
    (shop.run target visible state, visible.restore notes)

def dispatchOne (shop : Workshop σ) (item : Item) (store : Store) (state : σ) : Dispatched σ :=
  let ((outcome, events, state), store) := shop.runItem item store state
  let (result, more, state) := shop.settle item.value outcome state
  ⟨result, store, state, events ++ more⟩

/-- Process items in order after some that led to `status` and `events`. -/
def dispatchFrom (shop : Workshop σ) (status : ExitStatus) (events : List Event) :
    List Item → Store → σ → Dispatched σ
  | [], store, state => ⟨.ok status, store, state, events⟩
  | item :: rest, store, state =>
    let one := shop.dispatchOne item store state
    match one.result with
    | .error e => ⟨.error e, one.store, one.state, events ++ one.events⟩
    | .ok more =>
      shop.dispatchFrom (status ||| more) (events ++ one.events) rest one.store one.state

/-- Process all items of a batch, up to the first fatal outcome. -/
def dispatch (shop : Workshop σ) (items : List Item) (store : Store) (state : σ) : Dispatched σ :=
  shop.dispatchFrom .success [] items store state

end Workshop
end BatchFetch
