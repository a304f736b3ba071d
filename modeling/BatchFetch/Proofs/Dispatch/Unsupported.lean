import BatchFetch.Dispatch.Sink
import BatchFetch.Proofs.Batch.TargetLines
import BatchFetch.Proofs.Dispatch.Endings
import BatchFetch.Proofs.Dispatch.Related

namespace BatchFetch

variable {σ τ : Type}

/-- A sink that accepts everything and shows what was written behind what it has shown before. -/
structure Sink.Reliable (sink : Sink τ) (content : τ → Bytes) : Prop where
  writes : ∀ bytes log, (sink.write bytes log).1 = .ok ()
  grows : ∀ bytes log, content (sink.write bytes log).2 = content log ++ bytes
  flushes : ∀ log, (sink.flush log).1 = .ok ()
  keeps : ∀ log, content (sink.flush log).2 = content log

/-- A sink that keeps in memory what is written. -/
def Sink.memory : Sink Bytes where
  write bytes log := (.ok (), log ++ bytes)
  flush log := (.ok (), log)

theorem Sink.memory_reliable : memory.Reliable id where
  writes _ _ := rfl
  grows _ _ := rfl
  flushes _ := rfl
  keeps _ := rfl

/-- A factory next to a state that its jobs do not touch. -/
def JobFactory.beside (factory : JobFactory σ) (τ : Type) : JobFactory (σ × τ) where
  create target shown both :=
    let (made, events, state) := factory.create target shown both.1
    let job (job : Job σ) (both : σ × τ) :=
      let (outcome, events, state) := job both.1
      (outcome, events, (state, both.2))
    (made.map job, events, (state, both.2))

/-- The recording of targets in a sink next to a state. -/
def Sink.recorder (sink : Sink τ) (target : String) (both : σ × τ) : Except IoError Unit × (σ × τ) :=
  let (result, log) := sink.record target both.2
  (result, (both.1, log))

/-- The workshop of a factory that records unsupported targets in a sink. -/
def JobFactory.logging (factory : JobFactory σ) (sink : Sink τ) : Workshop (σ × τ) :=
  (factory.beside τ).workshop (some sink.recorder)

/-- The same workshop under observation. -/
def JobFactory.observedLogging (factory : JobFactory σ) (sink : Sink τ) :
    Workshop (Observed (σ × τ)) :=
  (factory.beside τ).observedWorkshop (some sink.recorder)

theorem JobFactory.run_beside (factory : JobFactory σ) (target : String) (shown : Store) (state : σ)
    (log : τ) :
    (factory.beside τ).run target shown (state, log) =
      let (outcome, events, after) := factory.run target shown state
      (outcome, events, (after, log)) := by
  rcases created : factory.create target shown state with ⟨made, events, after⟩
  cases made <;> simp only [run, beside, created, Except.map]

theorem Sink.Reliable.record {sink : Sink τ} {content : τ → Bytes} (reliable : sink.Reliable content)
    (target : String) (log : τ) :
    content (sink.record target log).2 =
      content log ++ Text.Utf8.encode (targetList [target]).toList := by
  unfold Sink.record
  rcases first : sink.write (Text.Utf8.encode target.toList) log with ⟨result, named⟩
  obtain rfl : result = .ok () := by rw [← reliable.writes _ log, first]
  rcases second : sink.write [10] named with ⟨result, ended⟩
  obtain rfl : result = .ok () := by rw [← reliable.writes _ named, second]
  have grown := reliable.grows (Text.Utf8.encode target.toList) log
  have ending := reliable.grows [10] named
  rw [first] at grown
  rw [second] at ending
  simp only [second]
  rw [reliable.keeps, ending, grown, encode_targetList, List.flatMap_singleton, List.append_assoc]

namespace Workshop

theorem recordUnsupported_logging (factory : JobFactory σ) (sink : Sink τ) (target : String)
    (state : σ) (log : τ) :
    ((factory.logging sink).recordUnsupported target (state, log)).2 =
      (state, (sink.record target log).2) := by
  rcases recorded : sink.record target log with ⟨_ | _, after⟩ <;>
    simp only [recordUnsupported, JobFactory.logging, JobFactory.workshop, Sink.recorder, recorded]

theorem recordUnsupported_observedLogging (factory : JobFactory σ) (sink : Sink τ) (target : String)
    (state : σ) (log : τ) (journal : Journal) :
    ((factory.observedLogging sink).recordUnsupported target ((state, log), journal)).2 =
      ((state, (sink.record target log).2), journal.record target) := by
  rw [← recordUnsupported_logging factory sink target state log]
  exact recordUnsupported_observed (factory.beside τ) (some sink.recorder) target (state, log) journal

/-- Observing a batch changes nothing in it. -/
theorem dispatch_alike_observed (factory : JobFactory σ)
    (record : Option (String → σ → Except IoError Unit × σ)) (items : List Item) (store : Store)
    (state : σ) (journal : Journal) :
    Dispatched.Alike (fun state (watched : Observed σ) => state = watched.1)
      ((factory.workshop record).dispatch items store state)
      ((factory.observedWorkshop record).dispatch items store (state, journal)) := by
  refine Related.dispatch ?_ items store rfl
  constructor
  case outcome =>
    rintro _ ⟨now, journal⟩ same target shown
    obtain rfl : _ = now := same
    exact congrArg Prod.fst (factory.run_observed target shown _ journal).symm
  case run =>
    rintro _ ⟨now, journal⟩ same target shown
    obtain rfl : _ = now := same
    exact congrArg (·.2.2.1) (factory.run_observed target shown _ journal).symm
  case record =>
    rintro _ ⟨now, journal⟩ same target
    obtain rfl : _ = now := same
    exact congrArg Prod.fst (recordUnsupported_observed factory record target _ journal).symm

/-- A batch with a log beside the batch without one. -/
theorem dispatch_alike_alone (factory : JobFactory σ) (sink : Sink τ) (items : List Item)
    (store : Store) (state : σ) (log : τ) :
    Dispatched.Alike (fun (both : σ × τ) (single : σ) => both.1 = single)
      ((factory.logging sink).dispatch items store (state, log))
      ((factory.workshop none).dispatch items store state) := by
  refine Related.dispatch ?_ items store rfl
  constructor
  case outcome =>
    rintro ⟨state, log⟩ _ rfl target shown
    exact congrArg Prod.fst (factory.run_beside target shown state log)
  case run =>
    rintro ⟨state, log⟩ _ rfl target shown
    exact congrArg (·.2.2.1) (factory.run_beside target shown state log)
  case record =>
    rintro ⟨state, log⟩ _ rfl target
    exact congrArg Prod.fst (recordUnsupported_logging factory sink target state log)

/-- With and without a log, an observer notes the same calls and the same outcomes. -/
theorem observed_alike_alone (factory : JobFactory σ) (sink : Sink τ) (items : List Item)
    (store : Store) (state : σ) (log : τ) :
    Dispatched.Alike
      (fun (watched : Observed (σ × τ)) (alone : Observed σ) => watched.1.1 = alone.1 ∧
        watched.2.calls = alone.2.calls ∧ watched.2.outcomes = alone.2.outcomes)
      ((factory.observedLogging sink).dispatch items store ((state, log), {}))
      ((factory.observedWorkshop none).dispatch items store (state, {})) := by
  refine Related.dispatch ?_ items store ⟨rfl, rfl, rfl⟩
  constructor
  case outcome =>
    rintro ⟨⟨state, log⟩, watching⟩ ⟨_, journal⟩ ⟨rfl, calls, outcomes⟩ target shown
    show ((factory.beside τ).observed.run target shown ((state, log), watching)).1 =
      (factory.observed.run target shown (state, journal)).1
    rw [JobFactory.run_observed, JobFactory.run_observed, factory.run_beside]
  case run =>
    rintro ⟨⟨state, log⟩, watching⟩ ⟨_, journal⟩ ⟨rfl, calls, outcomes⟩ target shown
    simp only at calls outcomes
    simp only [JobFactory.observedLogging, JobFactory.observedWorkshop, JobFactory.workshop,
      JobFactory.run_observed, factory.run_beside, Journal.call, Journal.ended, calls, outcomes,
      and_self]
  case record =>
    rintro ⟨⟨state, log⟩, watching⟩ ⟨_, journal⟩ ⟨rfl, calls, outcomes⟩ target
    rw [recordUnsupported_observedLogging, recordUnsupported_observed]
    exact ⟨rfl, calls, outcomes⟩

end Workshop

/-- The targets that no handler accepts, among the items that have ended. -/
def Item.unsupported (items : List Item) (outcomes : List JobOutcome) : List String :=
  ((items.zip outcomes).filter (·.2 = .notFound)).map (·.1.value)

theorem Item.unsupported_cons (item : Item) (rest : List Item) (outcome : JobOutcome)
    (outcomes : List JobOutcome) :
    unsupported (item :: rest) (outcome :: outcomes) =
      (if outcome = .notFound then [item.value] else []) ++ unsupported rest outcomes := by
  by_cases none : outcome = .notFound <;> simp [unsupported, none]

namespace Workshop

variable {sink : Sink τ} {content : τ → Bytes}

/-- One item: its target is called, its outcome is noted, and the log grows by the target if no
handler accepts it. -/
theorem dispatchOne_logging (factory : JobFactory σ) (reliable : sink.Reliable content) (item : Item)
    (store : Store) (state : σ) (log : τ) (journal : Journal) :
    let one := (factory.observedLogging sink).dispatchOne item store
      ((state, log), journal)
    ∃ shown outcome, one.result = outcome.verdict item.value ∧
      one.state.2.calls = journal.calls ++ [(item.value, shown)] ∧
      one.state.2.outcomes = journal.outcomes ++ [outcome] ∧
      content one.state.1.2 = content log ++
        Text.Utf8.encode (targetList (if outcome = .notFound then [item.value] else [])).toList := by
  intro one
  obtain ⟨shown, result, left, calls, outcomes⟩ :=
    dispatchOne_noted (factory.beside τ) (some sink.recorder) item store (state, log) journal
  rw [factory.run_beside] at result left outcomes
  generalize factory.run item.value shown state = answered at result left outcomes
  obtain ⟨outcome, _, after⟩ := answered
  refine ⟨shown, outcome, result, calls, outcomes, ?_⟩
  have both : one.state.1 = if outcome = .notFound then
      ((factory.logging sink).recordUnsupported item.value (after, log)).2 else (after, log) :=
    left.trans (settle_state ..)
  rw [both]
  by_cases none : outcome = .notFound
  · have noted := recordUnsupported_logging factory sink item.value after log
    rw [if_pos none, if_pos none, ← reliable.record item.value log]
    exact congrArg (fun both : σ × τ => content both.2) noted
  · rw [if_neg none, if_neg none]
    exact (List.append_nil _).symm

/-- A whole batch: the log grows by the targets that no handler accepts. -/
theorem dispatchFrom_logging (factory : JobFactory σ) (reliable : sink.Reliable content)
    (status : ExitStatus) (events : List Event) (items : List Item) (store : Store) (state : σ)
    (log : τ) (journal : Journal) :
    let done := (factory.observedLogging sink).dispatchFrom status events
      items store ((state, log), journal)
    ∃ outcomes, done.state.2.outcomes = journal.outcomes ++ outcomes ∧
      done.state.2.calls.map Prod.fst =
        journal.calls.map Prod.fst ++ (items.take outcomes.length).map Item.value ∧
      content done.state.1.2 = content log ++
        Text.Utf8.encode (targetList (Item.unsupported items outcomes)).toList := by
  induction items generalizing status events store state log journal with
  | nil => exact ⟨[], by simp [dispatchFrom, Item.unsupported, targetList, Text.Utf8.encode]⟩
  | cons item rest ih =>
    obtain ⟨shown, outcome, result, calls, outcomes, grown⟩ :=
      dispatchOne_logging factory reliable item store state log journal
    simp only [dispatchFrom, result]
    cases verdict : outcome.verdict item.value with
    | error e =>
      refine ⟨[outcome], outcomes, by simp [calls], ?_⟩
      rw [Item.unsupported_cons]
      simpa [Item.unsupported] using grown
    | ok more =>
      rcases ended : (factory.observedLogging sink).dispatchOne item store
        ((state, log), journal) with ⟨_, left, ⟨⟨after, longer⟩, notes⟩, seen⟩
      rw [ended] at calls outcomes grown
      obtain ⟨later, allOutcomes, allCalls, allGrown⟩ :=
        ih (status ||| more) (events ++ seen) left after longer notes
      refine ⟨outcome :: later, ?_, ?_, ?_⟩
      · rw [allOutcomes, outcomes, List.append_assoc, List.singleton_append]
      · rw [allCalls, calls]
        simp
      · rw [allGrown, grown, Item.unsupported_cons, encode_targetList, encode_targetList,
          encode_targetList, List.flatMap_append, List.append_assoc]

/-- The outcomes of the batch without a log tell which targets the log gets. -/
theorem dispatch_logging (factory : JobFactory σ) (reliable : sink.Reliable content)
    (items : List Item) (store : Store) (state : σ) (log : τ) :
    let alone := (factory.observedWorkshop none).dispatch items store (state, {})
    alone.state.2.calls.map Prod.fst = (items.take alone.state.2.outcomes.length).map Item.value ∧
      content ((factory.logging sink).dispatch items store (state, log)).state.2 = content log ++
        Text.Utf8.encode (targetList (Item.unsupported items alone.state.2.outcomes)).toList := by
  intro alone
  obtain ⟨outcomes, ended, calls, grown⟩ :=
    dispatchFrom_logging factory reliable .success [] items store state log {}
  obtain ⟨_, sameCalls, sameOutcomes⟩ :=
    (observed_alike_alone factory sink items store state log).state
  have watched : ((factory.logging sink).dispatch items store (state, log)).state = _ :=
    (dispatch_alike_observed (factory.beside τ) (some sink.recorder) items store (state, log) {}).state
  rw [← sameCalls, ← sameOutcomes, watched]
  rw [List.nil_append] at ended
  rw [← ended] at calls grown
  exact ⟨calls, grown⟩

/-- A batch with a log is the same batch as without: whatever the sink answers, the same targets are
run under the same stores with the same outcomes, and the result and the store that is left are the
same. A reliable sink gets the targets whose outcome is that no handler accepts them, in order and
each on a line, also when the batch is cut short. Where all items were read from sources, the log is
read without warnings, and its items are these targets. -/
theorem dispatch_logs_unsupported (factory : JobFactory σ) (items : List Item) (store : Store)
    (state : σ) :
    let alone := (factory.observedWorkshop none).dispatch items store (state, {})
    let unsupported := Item.unsupported items alone.state.2.outcomes
    alone.state.2.calls.map Prod.fst = (items.take alone.state.2.outcomes.length).map Item.value ∧
    (∀ (τ : Type) (sink : Sink τ) (log : τ),
      Dispatched.Alike (fun both single => both.1 = single)
        ((factory.logging sink).dispatch items store (state, log))
        ((factory.workshop none).dispatch items store state) ∧
      Dispatched.Alike (fun watched alone => watched.1.1 = alone.1 ∧
          watched.2.calls = alone.2.calls ∧ watched.2.outcomes = alone.2.outcomes)
        ((factory.observedLogging sink).dispatch items store
          ((state, log), {}))
        alone) ∧
    ∀ (τ : Type) (sink : Sink τ) (content : τ → Bytes), sink.Reliable content → ∀ log,
      let written := content ((factory.logging sink).dispatch items store (state, log)).state.2
      written = content log ++ Text.Utf8.encode (targetList unsupported).toList ∧
      ((∀ item ∈ items, ∃ opening stdin sources,
          item ∈ (Source.readAllFrom opening stdin sources).1) →
        content log = [] → ∀ origin existing,
          (ByteStream.readInto ⟨written, none⟩ origin existing).1 =
            ⟨.ok unsupported.length, existing ++ unsupported.map .plain, []⟩) := by
  intro alone unsupported
  refine ⟨?_, fun τ sink log => ⟨?_, ?_⟩, fun τ sink content reliable log => ?_⟩
  · exact (dispatch_logging factory Sink.memory_reliable items store state []).1
  · exact dispatch_alike_alone factory sink items store state log
  · exact observed_alike_alone factory sink items store state log
  · have written := (dispatch_logging factory reliable items store state log).2
    refine ⟨written, fun read empty origin existing => ?_⟩
    have listable : ∀ target ∈ unsupported, IsListable target := by
      intro target member
      obtain ⟨ended, inside, rfl⟩ := List.mem_map.mp member
      obtain ⟨_, _, _, here⟩ := read ended.1 (List.of_mem_zip (List.mem_of_mem_filter inside)).1
      exact Source.isListable_of_readAll here
    rw [written, empty, List.nil_append]
    exact ByteStream.readInto_targetList listable origin existing

/-- A factory that knows two targets and is ended by one of them. -/
def choosy : JobFactory Unit where
  create target _ state :=
    if target = "good" then (.ok fun state => (.completed .success, [], state), [], state)
    else if target = "worst" then (.error (.fatal [.text "boom"]), [], state)
    else (.error .notFound, [], state)

theorem dispatch_logs_unsupported_fatal :
    let text := " bad \n-x=1\ngood\nbad\nodd\nworst\nbad\n"
    let fs : FileSystem := { nodes := [(["list"], .file (Text.Utf8.encode text.toList))] }
    let items := (Source.readAll fs [] [.file "list"]).1
    let done := (choosy.logging Sink.memory).dispatch items .empty ((), [])
    Sink.memory.Reliable id ∧
      (∀ item ∈ items, ∃ opening stdin sources,
        item ∈ (Source.readAllFrom opening stdin sources).1) ∧
      done.result = .error ⟨"worst", [.text "boom"]⟩ ∧
      done.state.2 = Text.Utf8.encode "bad\nbad\nodd\n".toList ∧
      (ByteStream.readInto ⟨done.state.2, none⟩ "log" []).1 =
        ⟨.ok 3, [.plain "bad", .plain "bad", .plain "odd"], []⟩ := by
  intro text fs items done
  obtain ⟨_, _, logged⟩ := dispatch_logs_unsupported choosy items .empty ()
  obtain ⟨_, replayed⟩ := logged Bytes Sink.memory id Sink.memory_reliable []
  have read : ∀ item ∈ items, ∃ opening stdin sources,
      item ∈ (Source.readAllFrom opening stdin sources).1 :=
    fun item member => ⟨fs.opening, ⟨[], none⟩, [.file "list"], member⟩
  have unsupported : Item.unsupported items
      ((choosy.observedWorkshop none).dispatch items .empty ((), {})).state.2.outcomes =
        ["bad", "bad", "odd"] := by decide +kernel
  have again := replayed read rfl "log" []
  rw [unsupported] at again
  exact ⟨Sink.memory_reliable, read, by decide +kernel, by decide +kernel, again⟩

end Workshop
end BatchFetch
