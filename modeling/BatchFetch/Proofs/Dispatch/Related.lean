import BatchFetch.Dispatch.Basic

namespace BatchFetch

variable {σ τ : Type}

/-- Two dispatches with the same result and the same store, whose states are related. -/
structure Dispatched.Alike (R : σ → τ → Prop) (first : Dispatched σ) (second : Dispatched τ) :
    Prop where
  result : first.result = second.result
  store : first.store = second.store
  state : R first.state second.state

namespace Workshop

/-- From related states, a target has the same outcome in both workshops, and related states are
left by its job and by the recording of a target. -/
structure Related (R : σ → τ → Prop) (shop : Workshop σ) (other : Workshop τ) : Prop where
  outcome : ∀ {state state'}, R state state' → ∀ target shown,
    (shop.run target shown state).1 = (other.run target shown state').1
  run : ∀ {state state'}, R state state' → ∀ target shown,
    R (shop.run target shown state).2.2 (other.run target shown state').2.2
  record : ∀ {state state'}, R state state' → ∀ target,
    R (shop.recordUnsupported target state).2 (other.recordUnsupported target state').2

variable {R : σ → τ → Prop} {shop : Workshop σ} {other : Workshop τ}

theorem Related.settle (related : Related R shop other) (target : String)
    {outcome outcome' : JobOutcome} (same : outcome = outcome') {state : σ} {state' : τ}
    (before : R state state') :
    (shop.settle target outcome state).1 = (other.settle target outcome' state').1 ∧
      R (shop.settle target outcome state).2.2 (other.settle target outcome' state').2.2 := by
  subst same
  cases outcome with
  | notFound => exact ⟨rfl, related.record before target⟩
  | completed | aborted | fatal => exact ⟨rfl, before⟩

theorem Related.runItem (related : Related R shop other) (item : Item) (store : Store)
    {state : σ} {state' : τ} (before : R state state') :
    (shop.runItem item store state).1.1 = (other.runItem item store state').1.1 ∧
      (shop.runItem item store state).2 = (other.runItem item store state').2 ∧
      R (shop.runItem item store state).1.2.2 (other.runItem item store state').1.2.2 := by
  cases item with
  | plain target => exact ⟨related.outcome before _ _, rfl, related.run before _ _⟩
  | enriched target globals locals => exact ⟨related.outcome before _ _, rfl, related.run before _ _⟩

theorem Related.dispatchOne (related : Related R shop other) (item : Item) (store : Store)
    {state : σ} {state' : τ} (before : R state state') :
    Dispatched.Alike R (shop.dispatchOne item store state)
      (other.dispatchOne item store state') := by
  obtain ⟨outcome, left, ran⟩ := related.runItem item store before
  obtain ⟨result, after⟩ := related.settle item.value outcome ran
  exact ⟨result, left, after⟩

theorem Related.dispatchFrom (related : Related R shop other) (items : List Item)
    (status : ExitStatus) (events events' : List Event) (store : Store) {state : σ} {state' : τ}
    (before : R state state') :
    Dispatched.Alike R (shop.dispatchFrom status events items store state)
      (other.dispatchFrom status events' items store state') := by
  induction items generalizing status events events' store state state' with
  | nil => exact ⟨rfl, rfl, before⟩
  | cons item rest ih =>
    obtain ⟨result, left, after⟩ := related.dispatchOne item store before
    simp only [Workshop.dispatchFrom, result]
    cases (other.dispatchOne item store state').result with
    | error e => exact ⟨rfl, left, after⟩
    | ok more =>
      rw [left]
      exact ih _ _ _ _ after

/-- Workshops that keep their states related have the same result of a batch and leave the same
store. -/
theorem Related.dispatch (related : Related R shop other) (items : List Item) (store : Store)
    {state : σ} {state' : τ} (before : R state state') :
    Dispatched.Alike R (shop.dispatch items store state) (other.dispatch items store state') :=
  related.dispatchFrom items .success [] [] store before

/-- What the jobs of a batch and the recording of targets keep is kept by the whole batch. -/
theorem dispatch_keeps {P : σ → Prop}
    (run : ∀ {state}, P state → ∀ target shown, P (shop.run target shown state).2.2)
    (record : ∀ {state}, P state → ∀ target, P (shop.recordUnsupported target state).2)
    (items : List Item) (store : Store) {state : σ} (before : P state) :
    P (shop.dispatch items store state).state := by
  have related : Related (fun state state' => state = state' ∧ P state) shop shop := by
    constructor
    case outcome =>
      rintro _ _ ⟨rfl, _⟩ target shown
      rfl
    case run =>
      rintro _ _ ⟨rfl, kept⟩ target shown
      exact ⟨rfl, run kept target shown⟩
    case record =>
      rintro _ _ ⟨rfl, kept⟩ target
      exact ⟨rfl, record kept target⟩
  exact (related.dispatch items store ⟨rfl, before⟩).state.2

end Workshop
end BatchFetch
