import BatchFetch.Dispatch.Progress
import BatchFetch.Proofs.Dispatch.Endings
import BatchFetch.Proofs.Dispatch.Unsupported

namespace BatchFetch

variable {σ ω : Type}

/-- How a line is written to a stream. A write that fails may change the stream all the same. -/
abbrev LineWriter (ω : Type) := String → ω → Except IoError Unit × ω

/-- The line of each item, where `done` items out of `total` came before. -/
def progressLines (template : String) (total done : Nat) (items : List Item) : List String :=
  items.mapIdx fun k item => renderProgress template (done + k + 1) total item.value

/-- What is left of a stream by lines that are written whatever becomes of those before. -/
def LineWriter.writeAll (write : LineWriter ω) (out : ω) (lines : List String) : ω :=
  lines.foldl (fun out line => (write line out).2) out

/-- The lines of a stream of values. -/
def OutStream.writer : LineWriter OutStream := fun line out => out.writeLine line

namespace Workshop

/-- Process items, each of them once its line is written, where lines and jobs work on one state. -/
def dispatchToldFrom (shop : Workshop σ) (write : LineWriter σ) (template : String)
    (total done : Nat) (status : ExitStatus) (events : List Event) :
    List Item → Store → σ → Dispatched σ
  | [], store, state => ⟨.ok status, store, state, events⟩
  | item :: rest, store, state =>
    let line := renderProgress template (done + 1) total item.value
    let (written, state) := write line state
    let one := shop.dispatchOne item store state
    let events := events ++ (if written.isOk then [.progress line] else []) ++ one.events
    match one.result with
    | .error e => ⟨.error e, one.store, one.state, events⟩
    | .ok more =>
      shop.dispatchToldFrom write template total (done + 1) (status ||| more) events rest one.store
        one.state

def dispatchTold (shop : Workshop σ) (write : LineWriter σ) (template : String) (items : List Item)
    (store : Store) (state : σ) : Dispatched σ :=
  shop.dispatchToldFrom write template items.length 0 .success [] items store state

end Workshop

/-- A stream for lines next to the jobs of a batch, and what an observer notes of it. -/
structure Telling (ω : Type) where
  out : ω
  /-- The calls of the factory: the target, and the stream as it is by then. -/
  calls : List (String × ω) := []

namespace Telling

def call (telling : Telling ω) (target : String) : Telling ω :=
  { telling with calls := telling.calls ++ [(target, telling.out)] }

def tell (write : LineWriter ω) (telling : Telling ω) (line : String) : Telling ω :=
  { telling with out := (write line telling.out).2 }

/-- What becomes of it when items are told and called one after the other. -/
def run (write : LineWriter ω) (template : String) (total : Nat) :
    Nat → List Item → Telling ω → Telling ω
  | _, [], telling => telling
  | done, item :: rest, telling =>
    run write template total (done + 1) rest
      ((telling.tell write (renderProgress template (done + 1) total item.value)).call item.value)

end Telling

/-- The writing of lines next to the jobs of a batch. -/
def LineWriter.telling (write : LineWriter ω) : LineWriter (σ × Telling ω) := fun line both =>
  ((write line both.2.out).1, (both.1, both.2.tell write line))

/-- The factory next to a stream that its jobs do not touch. -/
def JobFactory.telling (factory : JobFactory σ) (ω : Type) : JobFactory (σ × Telling ω) where
  create target shown both :=
    (factory.beside (Telling ω)).create target shown (both.1, both.2.call target)

/-- The recording of targets next to a state that it does not touch. -/
def recordBeside {τ : Type} (record : String → σ → Except IoError Unit × σ) (target : String)
    (both : σ × τ) : Except IoError Unit × (σ × τ) :=
  let (result, state) := record target both.1
  (result, (state, both.2))

/-- The workshop of a factory next to a stream. -/
def JobFactory.tellingWorkshop (factory : JobFactory σ)
    (record : Option (String → σ → Except IoError Unit × σ)) (ω : Type) :
    Workshop (σ × Telling ω) :=
  (factory.telling ω).workshop (record.map recordBeside)

namespace Workshop

variable (factory : JobFactory σ) (record : Option (String → σ → Except IoError Unit × σ))

theorem settle_telling (target : String) (outcome : JobOutcome) (state : σ) (telling : Telling ω) :
    (factory.tellingWorkshop record ω).settle target outcome (state, telling) =
      let (result, events, after) := (factory.workshop record).settle target outcome state
      (result, events, (after, telling)) := by
  cases outcome with
  | notFound =>
    cases record with
    | none => rfl
    | some record =>
      rcases recorded : record target state with ⟨_ | _, after⟩ <;>
        simp [settle, recordUnsupported, JobFactory.tellingWorkshop, JobFactory.workshop,
          recordBeside, recorded]
  | completed | aborted | fatal => rfl

theorem run_telling (target : String) (shown : Store) (state : σ) (telling : Telling ω) :
    (factory.tellingWorkshop record ω).run target shown (state, telling) =
      let (outcome, events, after) := factory.run target shown state
      (outcome, events, (after, telling.call target)) :=
  factory.run_beside target shown state (telling.call target)

/-- One item next to a stream: its call is noted, and nothing else is changed. -/
theorem dispatchOne_telling (item : Item) (store : Store) (state : σ) (telling : Telling ω) :
    (factory.tellingWorkshop record ω).dispatchOne item store (state, telling) =
      let one := (factory.workshop record).dispatchOne item store state
      ⟨one.result, one.store, (one.state, telling.call item.value), one.events⟩ := by
  obtain ⟨shown, left, ran⟩ := exists_runItem item store
  simp only [dispatchOne, ran, run_telling, settle_telling]
  rfl

/-- A whole batch, told and observed: it is the same batch, and the items that are started are told
and called, each before the next. -/
theorem dispatchToldFrom_observed (write : LineWriter ω) (template : String) (total done : Nat)
    (status : ExitStatus) (events events' : List Event) (items : List Item) (store : Store)
    (state : σ) (journal : Journal) (telling : Telling ω) :
    let bare :=
      (factory.observedWorkshop record).dispatchFrom status events' items store (state, journal)
    let told := (factory.observed.tellingWorkshop (record.map observedRecord) ω).dispatchToldFrom
      write.telling template total done status events items store ((state, journal), telling)
    ∃ started ≤ items.length, bare.state.2.calls.length = journal.calls.length + started ∧
      Dispatched.Alike (fun both alone =>
          both = (alone, telling.run write template total done (items.take started))) told bare := by
  induction items generalizing done status events events' store state journal telling with
  | nil => exact ⟨0, Nat.le_refl 0, rfl, rfl, rfl, rfl⟩
  | cons item rest ih =>
    obtain ⟨shown, _, _, calls, _⟩ := dispatchOne_noted factory record item store state journal
    have called := congrArg List.length calls
    rw [List.length_append, List.length_singleton] at called
    have observed :
        factory.observed.workshop (record.map observedRecord) = factory.observedWorkshop record := rfl
    simp only [dispatchToldFrom, dispatchFrom, LineWriter.telling, dispatchOne_telling, observed]
    generalize (factory.observedWorkshop record).dispatchOne item store (state, journal) = one
      at called
    rcases one with ⟨_ | more, left, ⟨after, notes⟩, seen⟩
    · exact ⟨1, Nat.succ_pos _, called, rfl, rfl, rfl⟩
    · obtain ⟨started, most, allCalled, alike⟩ := ih (done + 1) (status ||| more) _ (events' ++ seen)
        left after notes _
      refine ⟨started + 1, Nat.succ_le_succ most, ?_, alike⟩
      rw [allCalled, called]
      omega

end Workshop

theorem progressLines_cons (template : String) (total done : Nat) (item : Item) (rest : List Item) :
    progressLines template total done (item :: rest) =
      renderProgress template (done + 1) total item.value ::
        progressLines template total (done + 1) rest := by
  simp only [progressLines, List.mapIdx_cons, Nat.add_right_comm done 1, Nat.add_assoc done]

namespace Telling

variable (write : LineWriter ω) (template : String) (total done : Nat)

theorem run_out (items : List Item) (telling : Telling ω) :
    (run write template total done items telling).out =
      write.writeAll telling.out (progressLines template total done items) := by
  induction items generalizing done telling with
  | nil => rfl
  | cons item rest ih =>
    rw [run, ih, progressLines_cons]
    rfl

theorem run_calls (items : List Item) (telling : Telling ω) :
    (run write template total done items telling).calls =
      telling.calls ++ items.mapIdx fun k item => (item.value,
        write.writeAll telling.out ((progressLines template total done items).take (k + 1))) := by
  induction items generalizing done telling with
  | nil => exact (List.append_nil _).symm
  | cons item rest ih =>
    rw [run, ih, progressLines_cons, List.mapIdx_cons, call, List.append_assoc]
    rfl

end Telling

namespace Workshop

theorem dispatchReportedFrom_nil (shop : Workshop σ) (status : ExitStatus) (events : List Event)
    (total current : Nat) (template : String) (out : OutStream) (store : Store) (state : σ) :
    shop.dispatchReportedFrom status events ⟨[], total, current, template, out⟩ store state =
      (⟨.ok status, store, state, events⟩, ⟨[], total, current, template, out⟩) := by
  rw [dispatchReportedFrom]
  rfl

theorem dispatchReportedFrom_cons (shop : Workshop σ) (status : ExitStatus) (events : List Event)
    (item : Item) (rest : List Item) (total current : Nat) (template : String) (out : OutStream)
    (store : Store) (state : σ) :
    shop.dispatchReportedFrom status events ⟨item :: rest, total, current, template, out⟩ store state =
      let line := renderProgress template (current + 1) total item.value
      let written := out.writeLine line
      let one := shop.dispatchOne item store state
      let events := events ++ (if written.1.isOk then [.progress line] else []) ++ one.events
      let progress : Progress := ⟨rest, total, current + 1, template, written.2⟩
      match one.result with
      | .error e => (⟨.error e, one.store, one.state, events⟩, progress)
      | .ok more => shop.dispatchReportedFrom (status ||| more) events progress one.store one.state := by
  rw [dispatchReportedFrom]
  rfl

/-- Progress lines do not disturb a batch. -/
theorem dispatchReportedFrom_alike (shop : Workshop σ) (status : ExitStatus)
    (events events' : List Event) (items : List Item) (total current : Nat) (template : String)
    (out : OutStream) (store : Store) (state : σ) :
    Dispatched.Alike (fun reported bare => reported = bare)
      (shop.dispatchReportedFrom status events ⟨items, total, current, template, out⟩ store state).1
      (shop.dispatchFrom status events' items store state) := by
  induction items generalizing status events events' current out store state with
  | nil =>
    rw [dispatchReportedFrom_nil]
    exact ⟨rfl, rfl, rfl⟩
  | cons item rest ih =>
    rw [dispatchReportedFrom_cons, dispatchFrom]
    simp only
    cases (shop.dispatchOne item store state).result with
    | error e => exact ⟨rfl, rfl, rfl⟩
    | ok more => exact ih ..

theorem dispatchReported_alike (shop : Workshop σ) (items : List Item) (template : String)
    (out : OutStream) (store : Store) (state : σ) :
    Dispatched.Alike (fun reported bare => reported = bare)
      (shop.dispatchReported (.start items template out) store state).1
      (shop.dispatch items store state) :=
  shop.dispatchReportedFrom_alike .success [] [] items items.length 0 template out store state

/-- A progress is a batch that is told to its stream. -/
theorem dispatchReportedFrom_eq (factory : JobFactory σ)
    (record : Option (String → σ → Except IoError Unit × σ)) (status : ExitStatus)
    (events : List Event) (items : List Item) (total done : Nat) (template : String) (store : Store)
    (state : σ) (telling : Telling OutStream) :
    let told := (factory.tellingWorkshop record OutStream).dispatchToldFrom
      OutStream.writer.telling template total done status events items store (state, telling)
    let reported := (factory.workshop record).dispatchReportedFrom status events
      ⟨items, total, done, template, telling.out⟩ store state
    reported.1 = { told with state := told.state.1 } ∧ reported.2.out = told.state.2.out := by
  induction items generalizing done status events store state telling with
  | nil =>
    rw [dispatchReportedFrom_nil]
    exact ⟨rfl, rfl⟩
  | cons item rest ih =>
    simp only [dispatchReportedFrom_cons, dispatchToldFrom, LineWriter.telling, dispatchOne_telling]
    generalize (factory.workshop record).dispatchOne item store state = one
    rcases one with ⟨_ | more, left, after, seen⟩
    · exact ⟨rfl, rfl⟩
    · exact ih (status ||| more) _ (done + 1) left after
        ((telling.tell OutStream.writer (renderProgress template (done + 1) total item.value)).call
          item.value)

end Workshop

/-- A stream that refuses nothing takes all lines. -/
theorem OutStream.writeAll_lines {out : OutStream} (accepts : ∀ n, out.refuses n = none)
    (lines : List String) :
    (writer.writeAll out lines).pieces = out.pieces ++ lines.flatMap piecesOf := by
  induction lines generalizing out with
  | nil => exact (List.append_nil _).symm
  | cons line rest ih =>
    have written : (out.writeLine line).2 =
        { out with attempts := out.attempts + 1 + 1, pieces := out.pieces ++ [line] ++ ["\n"] } := by
      simp only [writeLine, write, accepts]
    have accepted : ∀ n, (out.writeLine line).2.refuses n = none := by rwa [written]
    have step : writer.writeAll out (line :: rest) = writer.writeAll (out.writeLine line).2 rest := rfl
    rw [step, ih accepted, written, List.flatMap_cons, piecesOf, List.append_assoc,
      List.append_assoc]
    rfl

namespace Progress

/-- What so many calls of `next?` hand out, and what is left. -/
def nexts : Nat → Progress → List Item × Progress
  | 0, progress => ([], progress)
  | n + 1, progress =>
    match progress.next? with
    | none => nexts n progress
    | some (item, _, progress) =>
      let (more, last) := nexts n progress
      (item :: more, last)

theorem nexts_items (n : Nat) (progress : Progress) :
    (progress.nexts n).1 = progress.items.take n ∧
      (progress.nexts n).2.items = progress.items.drop n := by
  induction n generalizing progress with
  | zero => exact ⟨rfl, rfl⟩
  | succ n ih =>
    obtain ⟨items, total, current, template, out⟩ := progress
    cases items with
    | nil =>
      obtain ⟨handed, left⟩ := ih ⟨[], total, current, template, out⟩
      rw [List.take_nil] at handed
      rw [List.drop_nil] at left
      exact ⟨handed, left⟩
    | cons item rest =>
      obtain ⟨handed, left⟩ := ih ⟨rest, total, current + 1, template,
        (out.writeLine (renderProgress template (current + 1) total item.value)).2⟩
      exact ⟨congrArg (List.cons item) handed, left⟩

end Progress

namespace Workshop

/-- Progress lines leave a batch as it is, whatever becomes of them: the same jobs are made in the
same order and are shown the same stores, the same targets are recorded, and the result and the store
that is left are the same. A line is written for each item that is started, and when its job is made
the stream has been given the lines up to its own and no others. The progress of a batch writes its
lines in this way; and what it has handed out and what it still has to are always the whole batch. -/
theorem dispatch_tells (factory : JobFactory σ)
    (record : Option (String → σ → Except IoError Unit × σ)) (items : List Item) (template : String)
    (store : Store) (state : σ) :
    let bare := (factory.observedWorkshop record).dispatch items store (state, {})
    let started := items.take bare.state.2.outcomes.length
    let lines := started.mapIdx fun k item => renderProgress template (k + 1) items.length item.value
    bare.state.2.calls.map Prod.fst = started.map Item.value ∧
    Ended .success items bare.state.2.outcomes bare.result ∧
    (∀ (ω : Type) (write : LineWriter ω) (out : ω),
      let told := (factory.observed.tellingWorkshop (record.map observedRecord) ω).dispatchTold
        write.telling template items store ((state, {}), { out })
      Dispatched.Alike (fun both alone => both.1 = alone) told bare ∧
      told.state.2.out = write.writeAll out lines ∧
      told.state.2.calls = started.mapIdx fun k item =>
        (item.value, write.writeAll out (lines.take (k + 1)))) ∧
    (∀ out : OutStream,
      let told := (factory.observed.tellingWorkshop (record.map observedRecord) OutStream).dispatchTold
        OutStream.writer.telling template items store ((state, {}), { out })
      let reported := (factory.observedWorkshop record).dispatchReported
        (.start items template out) store (state, {})
      Dispatched.Alike (fun reported bare => reported = bare) reported.1 bare ∧
      reported.1 = { told with state := told.state.1 } ∧ reported.2.out = told.state.2.out ∧
      ((∀ n, out.refuses n = none) → reported.2.out.pieces = out.pieces ++ lines.flatMap OutStream.piecesOf)) ∧
    ∀ (out : OutStream) (n : Nat),
      let (handed, progress) := (Progress.start items template out).nexts n
      handed = items.take n ∧ progress.left + handed.length = items.length := by
  intro bare started lines
  obtain ⟨calls, ended, _⟩ :=
    @dispatch_noted _ factory record (fun _ _ => True) (fun _ => True)
      (fun _ _ _ _ => Or.inl ⟨trivial, trivial⟩) (fun _ _ _ => trivial) items store state trivial
  have lines_eq : lines = progressLines template items.length 0 started := by
    simp only [lines, progressLines, Nat.zero_add]
  have told (ω : Type) (write : LineWriter ω) (out : ω) :
      Dispatched.Alike (fun both alone =>
          both = (alone, Telling.run write template items.length 0 started { out }))
        ((factory.observed.tellingWorkshop (record.map observedRecord) ω).dispatchTold
          write.telling template items store ((state, {}), { out }))
        bare := by
    obtain ⟨count, most, called, alike⟩ := dispatchToldFrom_observed factory record write template
      items.length 0 .success [] [] items store state {} { out }
    have length := congrArg List.length calls
    rw [List.length_map, List.length_map, List.length_take,
      Nat.min_eq_left ended.length_le] at length
    have count_eq : count = bare.state.2.outcomes.length := by
      rw [← length]
      exact (called.trans (Nat.zero_add count)).symm
    rwa [count_eq] at alike
  refine ⟨calls, ended, fun ω write out => ?_, fun out => ?_, fun out n => ?_⟩
  · obtain ⟨result, left, both⟩ := told ω write out
    have telling := congrArg Prod.snd both
    simp only at telling
    refine ⟨⟨result, left, congrArg Prod.fst both⟩, ?_, ?_⟩
    · rw [telling, Telling.run_out, lines_eq]
    · rw [telling, Telling.run_calls, lines_eq]
      rfl
  · obtain ⟨same, stream⟩ := dispatchReportedFrom_eq factory.observed (record.map observedRecord)
      .success [] items items.length 0 template store (state, {}) { out }
    refine ⟨dispatchReported_alike _ items template out store _, same, stream, fun accepts => ?_⟩
    have telling := congrArg (·.2.out) (told OutStream OutStream.writer out).state
    refine (congrArg OutStream.pieces (stream.trans telling)).trans ?_
    rw [Telling.run_out, ← lines_eq]
    exact OutStream.writeAll_lines accepts lines
  · obtain ⟨handed, left⟩ := (Progress.start items template out).nexts_items n
    refine ⟨handed, ?_⟩
    rw [Progress.left, left, handed, List.length_drop, List.length_take]
    show items.length - n + min n items.length = items.length
    omega

theorem dispatch_tells_third_fatal :
    let template := "\x7bcurrent\x7d/\x7btotal\x7d \x7burl\x7d"
    let items := [.plain "a", .enriched "b" [] [], .plain "c", .plain "d"]
    let reported := (thirdFatal.observedWorkshop none).dispatchReported
      (.start items template { pieces := ["batch", "\n"] }) .empty (0, {})
    (∀ n, ({ pieces := ["batch", "\n"] } : OutStream).refuses n = none) ∧
      reported.1.result = .error ⟨"c", [.text "boom"]⟩ ∧
      reported.1.state.2.calls.map Prod.fst = ["a", "b", "c"] ∧
      reported.2.out.pieces = ["batch", "\n", "1/4 a", "\n", "2/4 b", "\n", "3/4 c", "\n"] := by
  intro template items reported
  have accepts : ∀ n, ({ pieces := ["batch", "\n"] } : OutStream).refuses n = none := fun _ => rfl
  obtain ⟨_, _, _, reports, _⟩ := dispatch_tells thirdFatal none items template .empty 0
  obtain ⟨alike, _, _, written⟩ := reports { pieces := ["batch", "\n"] }
  have calls := congrArg (fun state => state.2.calls.map Prod.fst) alike.state
  exact ⟨accepts, alike.result.trans (by rfl), calls.trans (by rfl),
    (written accepts).trans (by decide +kernel)⟩

end Workshop
end BatchFetch
