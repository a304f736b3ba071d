import BatchFetch.Dispatch.Basic
import BatchFetch.Proofs.Store.Overlay

namespace BatchFetch

/-- What an observer of a batch notes. -/
structure Journal where
  /-- The calls of the factory: the target, and the store that it is shown. -/
  calls : List (String × Store) := []
  /-- How the targets have ended. -/
  outcomes : List JobOutcome := []
  /-- The targets that were recorded as unsupported. -/
  recorded : List String := []

/-- A batch with an observer. -/
abbrev Observed (σ : Type) := σ × Journal

namespace Journal

def call (journal : Journal) (target : String) (shown : Store) : Journal :=
  { journal with calls := journal.calls ++ [(target, shown)] }

def ended (journal : Journal) (outcome : JobOutcome) : Journal :=
  { journal with outcomes := journal.outcomes ++ [outcome] }

def record (journal : Journal) (target : String) : Journal :=
  { journal with recorded := journal.recorded ++ [target] }

end Journal

variable {σ : Type}

/-- The factory under observation. -/
def JobFactory.observed (factory : JobFactory σ) : JobFactory (Observed σ) where
  create target shown watched :=
    let journal := watched.2.call target shown
    let (made, events, state) := factory.create target shown watched.1
    match made with
    | .error failure => (.error failure, events, (state, journal.ended failure.outcome))
    | .ok job =>
      let job (watched : Observed σ) :=
        let (outcome, events, state) := job watched.1
        (outcome, events, (state, watched.2.ended outcome))
      (.ok job, events, (state, journal))

/-- The recording of unsupported targets under observation. -/
def observedRecord (record : String → σ → Except IoError Unit × σ) (target : String)
    (watched : Observed σ) : Except IoError Unit × Observed σ :=
  let (result, state) := record target watched.1
  (result, (state, watched.2.record target))

/-- The workshop of a factory under observation. -/
def JobFactory.observedWorkshop (factory : JobFactory σ)
    (record : Option (String → σ → Except IoError Unit × σ)) : Workshop (Observed σ) :=
  factory.observed.workshop (record.map observedRecord)

/-- A dispatch without what was observed. -/
def Dispatched.unobserved (done : Dispatched (Observed σ)) : Dispatched σ :=
  { done with state := done.state.1 }

theorem JobFactory.run_observed (factory : JobFactory σ) (target : String) (shown : Store)
    (state : σ) (journal : Journal) :
    factory.observed.run target shown (state, journal) =
      let (outcome, events, after) := factory.run target shown state
      (outcome, events, (after, (journal.call target shown).ended outcome)) := by
  rcases created : factory.create target shown state with ⟨made, events, after⟩
  cases made with
  | ok job => simp only [run, observed, Journal.call, created]
  | error failure => simp only [run, observed, Journal.call, created]

/-- What the jobs of a batch leave to the later ones. -/
def Item.globalSettings (item : Item) : List Setting :=
  item.globals.map Directive.toSetting

/-- What only the job of the item itself sees. -/
def Item.localSettings (item : Item) : List Setting :=
  item.locals.map Directive.toSetting

/-- The status that an outcome contributes; that of a fatal one is not asked for. -/
def JobOutcome.status : JobOutcome → ExitStatus
  | completed status => status
  | aborted => .success
  | notFound => .noHandler
  | fatal _ => .success

/-- What an outcome makes of a batch: a fatal one ends it. -/
def JobOutcome.verdict (target : String) : JobOutcome → Except DispatchError ExitStatus
  | fatal error => .error ⟨target, error⟩
  | outcome => .ok outcome.status

namespace Workshop

theorem settle_verdict (shop : Workshop σ) (target : String) (outcome : JobOutcome) (state : σ) :
    (shop.settle target outcome state).1 = outcome.verdict target := by
  cases outcome <;> rfl

/-- Whether an item is plain does not matter: its job sees the global directives and then the local
ones on top of the store, and leaves the global ones behind. -/
theorem runItem_eq (shop : Workshop σ) (item : Item) {store : Store} (compact : store.Compact)
    (state : σ) :
    shop.runItem item store state =
      (shop.run item.value (store.setAll (item.globalSettings ++ item.localSettings)) state,
        store.setAll item.globalSettings) := by
  cases item with
  | plain target => rfl
  | enriched target globals locals =>
    have restored := (compact.setAll (globals.map Directive.toSetting)).restore_overlay
      (locals.map Directive.toSetting)
    simp only [runItem, restored]
    rw [Store.overlay_store, ← Store.setAll_append]
    rfl

/-- Items with the same parts cannot be told apart. -/
theorem dispatchFrom_congr (shop : Workshop σ) {items others : List Item}
    (same : others.map Item.parts = items.map Item.parts) (status : ExitStatus)
    (events : List Event) {store : Store} (compact : store.Compact) (state : σ) :
    shop.dispatchFrom status events others store state =
      shop.dispatchFrom status events items store state := by
  induction items generalizing others status events store state with
  | nil => rw [List.map_eq_nil_iff.1 same]
  | cons item rest ih =>
    obtain ⟨other, more, rfl, sameItem, sameRest⟩ := List.map_eq_cons_iff.1 same
    have one : shop.dispatchOne other store state = shop.dispatchOne item store state := by
      injection sameItem with value directives
      injection directives with globals locals
      simp only [dispatchOne, runItem_eq shop _ compact, Item.globalSettings, Item.localSettings,
        value, globals, locals]
    have left : (shop.dispatchOne item store state).store.Compact := by
      simp only [dispatchOne, runItem_eq shop item compact]
      exact compact.setAll item.globalSettings
    simp only [dispatchFrom, one]
    split
    · rfl
    · exact ih sameRest _ _ left _

end Workshop

namespace Journal

/-- The notes on one target; an unsupported target is recorded if such targets are at all. -/
def ofVisit (records : Bool) (target : String) (shown : Store) (outcome : JobOutcome) : Journal where
  calls := [(target, shown)]
  outcomes := [outcome]
  recorded := if records && outcome = .notFound then [target] else []

def append (first second : Journal) : Journal where
  calls := first.calls ++ second.calls
  outcomes := first.outcomes ++ second.outcomes
  recorded := first.recorded ++ second.recorded

@[simp] theorem append_empty (journal : Journal) : journal.append {} = journal := by
  simp [append]

@[simp] theorem empty_append (journal : Journal) : append {} journal = journal := rfl

theorem append_assoc (first second third : Journal) :
    (first.append second).append third = first.append (second.append third) := by
  simp [append]

/-- What a batch is to do with a store, told without overlays. It starts from a status; `store` and
`result` are what it ends with, and `records` tells whether unsupported targets are recorded. -/
structure Agrees (journal : Journal) (records : Bool) (status : ExitStatus) (initial : Store)
    (items : List Item) (store : Store) (result : Except DispatchError ExitStatus) : Prop where
  /-- The factory is called once for each item that was started, in order, and is shown the initial
  store with the global directives of the items so far and the local ones of this item. -/
  calls : journal.calls = (items.take journal.outcomes.length).mapIdx fun k item =>
    (item.value, initial.setAll
      ((items.take (k + 1)).flatMap Item.globalSettings ++ item.localSettings))
  /-- The global directives of the items that were started are what is left. -/
  store : store =
    initial.setAll ((items.take journal.outcomes.length).flatMap Item.globalSettings)
  /-- Either all items were started and none was fatal, or the last one started was the first to be
  fatal and is named. -/
  ending :
    (journal.outcomes.length = items.length ∧ (∀ error, .fatal error ∉ journal.outcomes) ∧
      result = .ok ((journal.outcomes.map JobOutcome.status).foldl (· ||| ·) status)) ∨
    (∃ before error item, journal.outcomes = before ++ [.fatal error] ∧
      (∀ error, .fatal error ∉ before) ∧ items[before.length]? = some item ∧
      result = .error ⟨item.value, error⟩)
  recorded : journal.recorded =
    if records then ((items.zip journal.outcomes).filter (·.2 = .notFound)).map (·.1.value) else []

theorem Agrees.nil (records : Bool) (status : ExitStatus) (store : Store) :
    Agrees {} records status store [] store (.ok status) where
  calls := rfl
  store := rfl
  ending := Or.inl ⟨rfl, by simp, rfl⟩
  recorded := by cases records <;> rfl

theorem Agrees.fatal (records : Bool) (status : ExitStatus) (initial : Store) (item : Item)
    (rest : List Item) (error : ErrorChain) :
    Agrees
      (ofVisit records item.value
        (initial.setAll (item.globalSettings ++ item.localSettings)) (.fatal error))
      records status initial (item :: rest) (initial.setAll item.globalSettings)
      (.error ⟨item.value, error⟩) where
  calls := by simp [ofVisit]
  store := by simp [ofVisit]
  ending := Or.inr ⟨[], error, item, rfl, by simp, rfl, rfl⟩
  recorded := by cases records <;> simp [ofVisit]

theorem Agrees.cons {more : Journal} {records : Bool} {status : ExitStatus} {initial store : Store}
    {item : Item} {rest : List Item} {result : Except DispatchError ExitStatus}
    {outcome : JobOutcome} (goesOn : ∀ error, outcome ≠ .fatal error)
    (later : Agrees more records (status ||| outcome.status)
      (initial.setAll item.globalSettings) rest store result) :
    Agrees
      ((ofVisit records item.value
        (initial.setAll (item.globalSettings ++ item.localSettings)) outcome).append more)
      records status initial (item :: rest) store result := by
  constructor
  case calls =>
    simp only [append, ofVisit, List.cons_append, List.nil_append, List.length_cons,
      List.take_succ_cons, List.mapIdx_cons, List.take_zero, List.flatMap_cons, List.flatMap_nil,
      List.append_assoc, Store.setAll_nil, Store.setAll_append, later.calls]
  case store =>
    simp only [append, ofVisit, List.cons_append, List.nil_append, List.length_cons,
      List.take_succ_cons, List.flatMap_cons, Store.setAll_append, later.store]
  case ending =>
    have outcomes : ((ofVisit records item.value (initial.setAll
        (item.globalSettings ++ item.localSettings)) outcome).append more).outcomes =
        outcome :: more.outcomes := rfl
    rw [outcomes]
    rcases later.ending with ⟨all, calm, value⟩ | ⟨before, error, last, split, calm, here, value⟩
    · refine Or.inl ⟨by rw [List.length_cons, List.length_cons, all], ?_, value⟩
      intro error member
      rcases List.mem_cons.1 member with now | after
      · exact goesOn error now.symm
      · exact calm error after
    · refine Or.inr ⟨outcome :: before, error, last, by rw [split, List.cons_append], ?_, here, value⟩
      intro other member
      rcases List.mem_cons.1 member with now | after
      · exact goesOn other now.symm
      · exact calm other after
  case recorded =>
    cases records with
    | false => simp [append, ofVisit, later.recorded]
    | true => by_cases unsupported : outcome = .notFound <;>
        simp [append, ofVisit, later.recorded, unsupported]

end Journal

namespace Workshop

variable (factory : JobFactory σ) (record : Option (String → σ → Except IoError Unit × σ))

theorem recordUnsupported_observed (target : String) (state : σ) (journal : Journal) :
    ((factory.observedWorkshop record).recordUnsupported target (state, journal)).2 =
      (((factory.workshop record).recordUnsupported target state).2,
        if record.isSome then journal.record target else journal) := by
  cases record with
  | none => rfl
  | some record =>
    rcases recorded : record target state with ⟨result, after⟩
    cases result <;>
      simp [recordUnsupported, JobFactory.observedWorkshop, JobFactory.workshop, observedRecord,
        recorded]

theorem settle_observed (target : String) (outcome : JobOutcome) (state : σ) (journal : Journal) :
    (factory.observedWorkshop record).settle target outcome (state, journal) =
      let (result, events, after) := (factory.workshop record).settle target outcome state
      (result, events, (after,
        if record.isSome && outcome = .notFound then journal.record target else journal)) := by
  cases outcome with
  | notFound =>
    cases record with
    | none => rfl
    | some record =>
      rcases recorded : record target state with ⟨result, after⟩
      cases result <;>
        simp [settle, recordUnsupported, JobFactory.observedWorkshop, JobFactory.workshop,
          observedRecord, recorded]
  | completed => simp [settle]
  | aborted => simp [settle]
  | fatal => simp [settle]

/-- One item: observing it changes nothing, and the visit of its target is noted. -/
theorem dispatchOne_observed (item : Item) {store : Store} (compact : store.Compact) (state : σ)
    (journal : Journal) :
    let one := (factory.observedWorkshop record).dispatchOne item store (state, journal)
    one.unobserved = (factory.workshop record).dispatchOne item store state ∧
      one.store = store.setAll item.globalSettings ∧
      ∃ outcome, one.result = outcome.verdict item.value ∧
        one.state.2 = journal.append (.ofVisit record.isSome item.value
          (store.setAll (item.globalSettings ++ item.localSettings)) outcome) := by
  intro one
  have ran : (factory.observedWorkshop record).run = factory.observed.run := rfl
  have one_eq : one = (factory.observedWorkshop record).dispatchOne item store (state, journal) := rfl
  simp only [dispatchOne, runItem_eq _ item compact, ran, JobFactory.run_observed,
    settle_observed] at one_eq
  refine ⟨?_, ?_, (factory.run item.value
    (store.setAll (item.globalSettings ++ item.localSettings)) state).1, ?_, ?_⟩
  · simp only [one_eq, dispatchOne, runItem_eq _ item compact, Dispatched.unobserved]
    rfl
  · rw [one_eq]
  · rw [one_eq]
    exact settle_verdict ..
  · rw [one_eq]
    simp only
    split <;> simp [Journal.append, Journal.ofVisit, Journal.call, Journal.ended, Journal.record, *]

/-- A whole batch, from any status: observing it changes nothing, and what is noted agrees with the
items. -/
theorem dispatchFrom_observed (status : ExitStatus) (events : List Event) (items : List Item)
    {store : Store} (compact : store.Compact) (state : σ) (journal : Journal) :
    let done :=
      (factory.observedWorkshop record).dispatchFrom status events items store (state, journal)
    done.unobserved = (factory.workshop record).dispatchFrom status events items store state ∧
      ∃ more, done.state.2 = journal.append more ∧
        more.Agrees record.isSome status store items done.store done.result := by
  induction items generalizing status events store state journal with
  | nil => exact ⟨rfl, {}, journal.append_empty.symm, Journal.Agrees.nil _ _ _⟩
  | cons item rest ih =>
    obtain ⟨same, left, outcome, verdict, noted⟩ :=
      dispatchOne_observed factory record item compact state journal
    simp only [dispatchFrom, ← same, Dispatched.unobserved]
    generalize (factory.observedWorkshop record).dispatchOne item store (state, journal) = one at *
    obtain ⟨result, after, ⟨later, notes⟩, seen⟩ := one
    simp only at left verdict noted
    subst left noted verdict
    cases outcome with
    | fatal error =>
      exact ⟨rfl, _, rfl, Journal.Agrees.fatal record.isSome status store item rest error⟩
    | completed | aborted | notFound =>
      obtain ⟨unobserved, more, extended, agrees⟩ := ih _ (events ++ seen)
        (compact.setAll item.globalSettings) later (journal.append (.ofVisit _ item.value _ _))
      refine ⟨unobserved, _, ?_, Journal.Agrees.cons (by simp) agrees⟩
      rw [← Journal.append_assoc]
      exact extended

/-- Observing a batch changes nothing, and what is noted from its start agrees with the items. -/
theorem dispatch_observed (items : List Item) {initial : Store} (compact : initial.Compact)
    (state : σ) :
    let done := (factory.observedWorkshop record).dispatch items initial (state, {})
    done.unobserved = (factory.workshop record).dispatch items initial state ∧
      done.state.2.Agrees record.isSome .success initial items done.store done.result := by
  intro done
  obtain ⟨unobserved, more, journal, agrees⟩ :=
    dispatchFrom_observed factory record .success [] items compact state {}
  rw [Journal.empty_append] at journal
  exact ⟨unobserved, journal ▸ agrees⟩

/-- A batch calls its factory once for each target in order, up to the first fatal outcome and no
further; each job sees the store as it was at the start with the global directives so far and its
own local ones; and only the global directives of the targets that were started are left, however
the batch ends. Items with the same parts cannot be told apart. -/
theorem dispatch_agrees (items : List Item) {initial : Store} (compact : initial.Compact)
    (state : σ) :
    let done := (factory.observedWorkshop record).dispatch items initial (state, {})
    (factory.workshop record).dispatch items initial state = done.unobserved ∧
      done.state.2.Agrees record.isSome .success initial items done.store done.result ∧
      ∀ others : List Item, others.map Item.parts = items.map Item.parts →
        (factory.workshop record).dispatch others initial state =
          (factory.workshop record).dispatch items initial state := by
  intro done
  obtain ⟨unobserved, more, journal, agrees⟩ :=
    dispatchFrom_observed factory record .success [] items compact state {}
  refine ⟨unobserved.symm, ?_, fun others same => ?_⟩
  · rw [Journal.empty_append] at journal
    exact journal ▸ agrees
  · exact dispatchFrom_congr _ same .success [] compact state

/-- A factory with a history: its second job cannot be made, and its third one is fatal. -/
def thirdFatal : JobFactory Nat where
  create _ _ made :=
    match made with
    | 0 => (.ok fun made => (.completed .http, [], made), [], 1)
    | 1 => (.error .notFound, [], 2)
    | made => (.ok fun made => (.fatal [.text "boom"], [], made), [], made + 1)

theorem dispatch_agrees_third_fatal :
    let initial := Store.empty.set ⟨globalSection, "skip", .bool false⟩
    let retries : Directive := ⟨⟨globalSection, "retries", .bool true⟩, .global⟩
    let first := Item.enriched "a" [retries] [⟨⟨"plugin", "opt", .null⟩, .oneTarget⟩]
    let items := [first, .plain "b", .enriched "c" [] [], .enriched "d" [retries] []]
    let done := (thirdFatal.observedWorkshop none).dispatch items initial (0, {})
    initial.Compact ∧ done.state.2.calls.map Prod.fst = ["a", "b", "c"] ∧
      done.result = .error ⟨"c", [.text "boom"]⟩ ∧
      done.store = initial.setAll [retries.toSetting] ∧
      done.state.2.Agrees false .success initial items done.store done.result ∧
      (thirdFatal.workshop none).dispatch [first, .plain "b", .plain "c"] initial 0 =
        (thirdFatal.workshop none).dispatch [first, .enriched "b" [] [], .plain "c"] initial 0 := by
  intro initial retries first items done
  have compact : initial.Compact := by decide
  obtain ⟨_, agrees, _⟩ := dispatch_agrees thirdFatal none items compact 0
  have alike := (dispatch_agrees thirdFatal none [first, .enriched "b" [] [], .plain "c"]
    compact 0).2.2
  exact ⟨compact, by rfl, by rfl, by decide, agrees, alike _ rfl⟩

end Workshop

end BatchFetch
