import BatchFetch.Job.Download

namespace BatchFetch.Download

/-- What the job does about a URL: it asks a handler to resolve it, reports that nothing claims it,
or hands it to `file`. -/
inductive Deed where
  | resolve (url : Url)
  | report (url : Url)
  | hand (url : Url)
  deriving DecidableEq

/-- Where the loop stands. The entries are what is left of those of the last target resolved. -/
structure Stage where
  seen : List Url
  queue : List Url
  entries : List Entry
  state : State
  aborted : Bool := false

/-- The loop at its start. -/
def Stage.start (root : Url) (files : FileSystem) : Stage where
  seen := [root]
  queue := [root]
  entries := []
  state := { files }

/-- Nothing is left to do, or the target is aborted. -/
def Stage.Ended (stage : Stage) : Prop :=
  stage.aborted = true ∨ (stage.queue = [] ∧ stage.entries = [])

def Stage.outcome (stage : Stage) : JobOutcome :=
  if stage.aborted then .aborted else .completed stage.state.trail.status

/-- One turn of the loop, which resolves the first target of the queue or handles one entry. -/
inductive Step (site : Site) (settings : DownloadSettings) (root : Url) :
    Stage → List Deed → Stage → Prop
  | resolve {seen queue : List Url} {url : Url} {state : State} :
      Step site settings root ⟨seen, url :: queue, [], state, false⟩ [.resolve url]
        ⟨seen, queue, site.entries url,
          { state with trail := state.trail.resolved url (site.expand url) }, false⟩
  | hand {seen queue : List Url} {url : Url} {entries : List Entry} {state after : State}
      {aborted : Bool} : file site settings root url state = (aborted, after) →
      Step site settings root ⟨seen, queue, .file url :: entries, state, false⟩ [.hand url]
        ⟨seen, queue, entries, after, aborted⟩
  | known {seen queue : List Url} {child : Url} {entries : List Entry} {state : State} :
      child ∈ seen →
      Step site settings root ⟨seen, queue, .queue child :: entries, state, false⟩ []
        ⟨seen, queue, entries, state, false⟩
  | discover {seen queue : List Url} {child : Url} {entries : List Entry} {state : State} :
      child ∉ seen → site.claims child →
      Step site settings root ⟨seen, queue, .queue child :: entries, state, false⟩ []
        ⟨child :: seen, queue ++ [child], entries, state, false⟩
  | report {seen queue : List Url} {child : Url} {entries : List Entry} {state : State} :
      child ∉ seen → ¬ site.claims child →
      Step site settings root ⟨seen, queue, .queue child :: entries, state, false⟩ [.report child]
        ⟨child :: seen, queue, entries, { state with trail := state.trail.unclaimed child }, false⟩

/-- Turns of the loop, as many as there are, with no bound on them. -/
inductive Steps (site : Site) (settings : DownloadSettings) (root : Url) :
    Stage → List Deed → Stage → Prop
  | refl (stage : Stage) : Steps site settings root stage [] stage
  | head {stage middle last : Stage} {deeds more : List Deed} :
      Step site settings root stage deeds middle → Steps site settings root middle more last →
      Steps site settings root stage (deeds ++ more) last

variable {site : Site} {settings : DownloadSettings} {root : Url}

theorem Step.deterministic {stage middle other : Stage} {deeds more : List Deed}
    (step : Step site settings root stage deeds middle)
    (again : Step site settings root stage more other) : deeds = more ∧ middle = other := by
  cases step with
  | resolve =>
    cases again
    exact ⟨rfl, rfl⟩
  | hand handled =>
    cases again with
    | hand handledAgain =>
      rw [handled] at handledAgain
      cases handledAgain
      exact ⟨rfl, rfl⟩
  | known old =>
    cases again with
    | known => exact ⟨rfl, rfl⟩
    | discover new => exact absurd old new
    | report new => exact absurd old new
  | discover new claimed =>
    cases again with
    | known old => exact absurd old new
    | discover => exact ⟨rfl, rfl⟩
    | report _ unclaimed => exact absurd claimed unclaimed
  | report new unclaimed =>
    cases again with
    | known old => exact absurd old new
    | discover _ claimed => exact absurd claimed unclaimed
    | report => exact ⟨rfl, rfl⟩

theorem Stage.Ended.no_step {stage middle : Stage} {deeds : List Deed} (ended : stage.Ended) :
    ¬ Step site settings root stage deeds middle := by
  intro step
  rcases ended with aborted | ⟨noQueue, noEntries⟩
  · cases step <;> cases aborted
  · cases step with
    | resolve => cases noQueue
    | _ => cases noEntries

theorem Steps.trans {stage middle last : Stage} {deeds more : List Deed}
    (first : Steps site settings root stage deeds middle)
    (second : Steps site settings root middle more last) :
    Steps site settings root stage (deeds ++ more) last := by
  induction first with
  | refl => exact second
  | head step _ ih =>
    rw [List.append_assoc]
    exact .head step (ih second)

/-- Where the loop ends at all, all its turns lead to that end. -/
theorem Steps.leads_on {stage middle last : Stage} {deeds done : List Deed}
    (steps : Steps site settings root stage deeds last) (ended : last.Ended)
    (begun : Steps site settings root stage done middle) :
    ∃ more, Steps site settings root middle more last ∧ deeds = done ++ more := by
  induction begun generalizing deeds with
  | refl => exact ⟨deeds, steps, rfl⟩
  | head step _ ih =>
    cases steps with
    | refl => exact absurd step ended.no_step
    | head first rest =>
      obtain ⟨sameDeeds, sameStage⟩ := first.deterministic step
      subst sameDeeds sameStage
      obtain ⟨more, later, equal⟩ := ih rest
      exact ⟨more, later, by rw [equal, List.append_assoc]⟩

/-- A loop ends in one way only. -/
theorem Steps.eq_last {stage last other : Stage} {deeds more : List Deed}
    (steps : Steps site settings root stage deeds last) (ended : last.Ended)
    (again : Steps site settings root stage more other) (endedToo : other.Ended) :
    last = other := by
  obtain ⟨_, later, _⟩ := steps.leads_on ended again
  cases later with
  | refl => rfl
  | head step _ => exact absurd step endedToo.no_step

theorem Pass.entry_of_aborted {pass : Pass} (aborted : pass.aborted = true) (entry : Entry) :
    pass.entry site settings root entry = pass := by
  unfold Pass.entry
  rw [if_pos aborted]

theorem Pass.run_of_aborted {pass : Pass} (aborted : pass.aborted = true) (entries : List Entry) :
    pass.run site settings root entries = pass := by
  induction entries with
  | nil => rfl
  | cons entry rest ih =>
    show (pass.entry site settings root entry).run site settings root rest = pass
    rw [Pass.entry_of_aborted aborted, ih]

/-- The stage in the midst of the entries of a target. -/
def Pass.stage (pass : Pass) (queue : List Url) (entries : List Entry) : Stage :=
  ⟨pass.seen, queue ++ pass.found, entries, pass.state, pass.aborted⟩

theorem Pass.exists_step {pass : Pass} (going : pass.aborted = false) (queue : List Url)
    (entry : Entry) (rest : List Entry) :
    ∃ deeds, Step site settings root (pass.stage queue (entry :: rest)) deeds
      ((pass.entry site settings root entry).stage queue rest) := by
  obtain ⟨seen, found, state, aborted⟩ := pass
  cases going
  cases entry with
  | file url => exact ⟨_, .hand rfl⟩
  | queue child =>
    by_cases old : child ∈ seen
    · have passed : Pass.entry site settings root ⟨seen, found, state, false⟩ (.queue child) =
          ⟨seen, found, state, false⟩ := by
        simp [Pass.entry, old]
      rw [passed]
      exact ⟨_, .known old⟩
    · by_cases claimed : site.claims child
      · have passed : Pass.entry site settings root ⟨seen, found, state, false⟩ (.queue child) =
            ⟨child :: seen, found ++ [child], state, false⟩ := by
          simp [Pass.entry, old, claimed]
        rw [passed, Pass.stage, Pass.stage, ← List.append_assoc]
        exact ⟨_, .discover old claimed⟩
      · have passed : Pass.entry site settings root ⟨seen, found, state, false⟩ (.queue child) =
            ⟨child :: seen, found, { state with trail := state.trail.unclaimed child }, false⟩ := by
          simp [Pass.entry, old, claimed]
        rw [passed]
        exact ⟨_, .report old claimed⟩

/-- Handling the entries of a target takes a turn for each, unless the target is aborted. -/
theorem Pass.exists_steps (pass : Pass) (queue : List Url) (entries : List Entry) :
    ∃ deeds left,
      Steps site settings root (pass.stage queue entries) deeds
          ((pass.run site settings root entries).stage queue left) ∧
        ((pass.run site settings root entries).aborted = false → left = []) := by
  induction entries generalizing pass with
  | nil => exact ⟨[], [], .refl _, fun _ => rfl⟩
  | cons entry rest ih =>
    cases going : pass.aborted with
    | true =>
      refine ⟨[], entry :: rest, ?_, ?_⟩
      · rw [Pass.run_of_aborted going]
        exact .refl _
      · rw [Pass.run_of_aborted going, going]
        intro absurdity
        cases absurdity
    | false =>
      obtain ⟨deeds, step⟩ : ∃ deeds, Step site settings root (pass.stage queue (entry :: rest)) deeds
          ((pass.entry site settings root entry).stage queue rest) :=
        Pass.exists_step going queue entry rest
      obtain ⟨more, left, steps, whole⟩ := ih (pass.entry site settings root entry)
      exact ⟨deeds ++ more, left, .head step steps, whole⟩

theorem exists_steps_target (seen queue : List Url) (url : Url) (state : State) :
    let pass := Pass.run site settings root
      { seen, state := { state with trail := state.trail.resolved url (site.expand url) } }
      (site.entries url)
    ∃ deeds left,
      Steps site settings root ⟨seen, url :: queue, [], state, false⟩ deeds
          (pass.stage queue left) ∧
        (pass.aborted = false → left = []) := by
  intro pass
  obtain ⟨deeds, left, steps, whole⟩ := Pass.exists_steps
    { seen, state := { state with trail := state.trail.resolved url (site.expand url) } } queue
    (site.entries url)
  rw [Pass.stage, List.append_nil] at steps
  exact ⟨_, left, .head .resolve steps, whole⟩

theorem Pass.stage_of_going {pass : Pass} (going : pass.aborted = false) (queue : List Url) :
    pass.stage queue [] = ⟨pass.seen, queue ++ pass.found, [], pass.state, false⟩ := by
  rw [stage, going]

/-- A traversal that comes to its end is a run of the loop to its end. -/
theorem exists_steps_visit {seen queue : List Url} {state : State} {answer : Bool × State}
    (visited : visit site settings root seen queue state = some answer) :
    ∃ deeds last, Steps site settings root ⟨seen, queue, [], state, false⟩ deeds last ∧
      last.Ended ∧ answer = (last.aborted, last.state) := by
  refine visit.partial_correctness site settings root
    (fun seen queue state answer =>
      ∃ deeds last, Steps site settings root ⟨seen, queue, [], state, false⟩ deeds last ∧
        last.Ended ∧ answer = (last.aborted, last.state)) ?_ seen queue state answer visited
  intro visit ih seen queue state answer visited
  cases queue with
  | nil =>
    cases visited
    exact ⟨[], _, .refl _, Or.inr ⟨rfl, rfl⟩, rfl⟩
  | cons url rest =>
    obtain ⟨deeds, left, steps, whole⟩ :=
      @exists_steps_target site settings root seen rest url state
    simp only at visited
    split at visited
    · rename_i aborted
      cases visited
      exact ⟨deeds, _, steps, Or.inl aborted, Prod.ext aborted.symm rfl⟩
    · rename_i going
      obtain ⟨more, last, later, ended, same⟩ := ih _ _ _ _ visited
      refine ⟨deeds ++ more, last, steps.trans ?_, ended, same⟩
      rw [Bool.not_eq_true] at going
      rw [whole going]
      show Steps site settings root (Pass.stage (Pass.run _ _ _ _ (site.expand url).entries) rest []) _ _
      rw [Pass.stage_of_going going]
      exact later

/-- Targets found before are kept in front of those that entries add. -/
theorem Pass.run_append_found (front : List Url) (pass : Pass) (entries : List Entry) :
    Pass.run site settings root { pass with found := front ++ pass.found } entries =
      { pass.run site settings root entries with
        found := front ++ (pass.run site settings root entries).found } := by
  induction entries generalizing pass with
  | nil => rfl
  | cons entry rest ih =>
    have step : Pass.entry site settings root { pass with found := front ++ pass.found } entry =
        { pass.entry site settings root entry with
          found := front ++ (pass.entry site settings root entry).found } := by
      unfold Pass.entry
      cases entry with
      | file url => simp only; split <;> rfl
      | queue child =>
        simp only
        split
        · rfl
        · split
          · rfl
          · split
            · rw [List.append_assoc]
            · rfl
    show Pass.run site settings root (Pass.entry site settings root _ entry) rest = _
    rw [step, ih]
    rfl

/-- What the traversal comes to from a stage on. -/
def Stage.resume (site : Site) (settings : DownloadSettings) (root : Url) (stage : Stage) :
    Option (Bool × State) :=
  let pass := Pass.run site settings root
    { seen := stage.seen, state := stage.state, aborted := stage.aborted } stage.entries
  if pass.aborted then some (true, pass.state)
  else visit site settings root pass.seen (stage.queue ++ pass.found) pass.state

theorem resume_start (seen queue : List Url) (state : State) :
    Stage.resume site settings root ⟨seen, queue, [], state, false⟩ =
      visit site settings root seen queue state := by
  simp [Stage.resume, Pass.run]

/-- No turn changes what the traversal comes to. -/
theorem Step.resume_eq {stage middle : Stage} {deeds : List Deed}
    (step : Step site settings root stage deeds middle) :
    stage.resume site settings root = middle.resume site settings root := by
  have turn (seen queue : List Url) (entry : Entry) (rest : List Entry) (state : State) :
      Stage.resume site settings root ⟨seen, queue, entry :: rest, state, false⟩ =
        Stage.resume site settings root
          ((Pass.entry site settings root { seen, state } entry).stage queue rest) := by
    simp only [Stage.resume, Pass.stage]
    generalize handled : Pass.entry site settings root { seen, state } entry = pass
    have begun : Pass.run site settings root { seen, state } (entry :: rest) =
        pass.run site settings root rest := handled ▸ rfl
    have kept := @Pass.run_append_found site settings root pass.found { pass with found := [] } rest
    rw [List.append_nil] at kept
    rw [begun, kept]
    simp only [List.append_assoc]
  cases step with
  | resolve =>
    rw [resume_start, visit]
    rfl
  | hand handled =>
    rw [turn]
    simp [Pass.entry, Pass.stage, handled]
  | known old =>
    rw [turn]
    simp [Pass.entry, Pass.stage, old]
  | discover new claimed =>
    rw [turn]
    simp [Pass.entry, Pass.stage, new, claimed]
  | report new unclaimed =>
    rw [turn]
    simp [Pass.entry, Pass.stage, new, unclaimed]

theorem Stage.Ended.resume_eq {stage : Stage} (ended : stage.Ended) :
    stage.resume site settings root = some (stage.aborted, stage.state) := by
  obtain ⟨seen, queue, entries, state, aborted⟩ := stage
  rcases ended with cut | ⟨noQueue, noEntries⟩
  · obtain rfl : aborted = true := cut
    simp only [resume, Pass.run_of_aborted, if_true]
  · obtain ⟨rfl, rfl⟩ : queue = [] ∧ entries = [] := ⟨noQueue, noEntries⟩
    cases aborted with
    | true => rfl
    | false => rw [resume_start, visit]

theorem Steps.resume_eq {stage last : Stage} {deeds : List Deed}
    (steps : Steps site settings root stage deeds last) (ended : last.Ended) :
    stage.resume site settings root = some (last.aborted, last.state) := by
  induction steps with
  | refl => exact ended.resume_eq
  | head step _ ih => rw [step.resume_eq, ih ended]

def Stage.report (stage : Stage) : Report :=
  ⟨stage.outcome, stage.state⟩

theorem Report.of_stage (stage : Stage) : Report.of stage.aborted stage.state = stage.report := by
  rw [Report.of, Stage.report, Stage.outcome]
  cases stage.aborted <;> rfl

/-- A download comes back when its loop has an end, with what has been reached there. -/
theorem run?_eq_some_iff {files : FileSystem} {report : Report} :
    run? site settings root files = some report ↔
      ∃ deeds last, Steps site settings root (Stage.start root files) deeds last ∧ last.Ended ∧
        report = last.report := by
  rw [run?, Option.map_eq_some_iff]
  constructor
  · rintro ⟨answer, visited, rfl⟩
    obtain ⟨deeds, last, steps, ended, rfl⟩ := exists_steps_visit visited
    exact ⟨deeds, last, steps, ended, Report.of_stage last⟩
  · rintro ⟨deeds, last, steps, ended, rfl⟩
    refine ⟨(last.aborted, last.state), ?_, Report.of_stage last⟩
    rw [← resume_start]
    exact steps.resume_eq ended

theorem exists_steps_run (finite : site.FinitelyReaches root) (files : FileSystem) :
    ∃ deeds last, Steps site settings root (Stage.start root files) deeds last ∧ last.Ended ∧
      run site settings root finite files = ⟨last.outcome, last.state⟩ :=
  run?_eq_some_iff.mp (Option.some_get (run?_isSome settings finite files)).symm

/-- A completed download has come to the end of the loop, and the status there is the answer. -/
theorem exists_steps_of_completed {finite : site.FinitelyReaches root} {files : FileSystem}
    {status : ExitStatus}
    (completed : (run site settings root finite files).outcome = .completed status) :
    ∃ deeds last, Steps site settings root (Stage.start root files) deeds last ∧ last.Ended ∧
      last.aborted = false ∧ last.state.trail.status = status ∧
      (run site settings root finite files).state = last.state := by
  obtain ⟨deeds, last, steps, ended, answer⟩ := exists_steps_run finite files
  rw [answer, Stage.outcome] at completed
  refine ⟨deeds, last, steps, ended, ?_⟩
  cases whole : last.aborted with
  | true =>
    rw [whole] at completed
    cases completed
  | false =>
    rw [whole] at completed
    exact ⟨rfl, JobOutcome.completed.inj completed, by rw [answer]⟩

theorem file_not_aborted (gentle : ∀ limit, settings.skip ≠ .abort limit) (url : Url)
    (state : State) : (file site settings root url state).1 = false := by
  simp only [file]
  split
  · -- There is no limit, so that only the last case of `skip` applies.
    simp only [skip]
  · split <;> rfl

/-- Only a limit on skipped files aborts a target. -/
theorem Steps.not_aborted {stage last : Stage} {deeds : List Deed}
    (steps : Steps site settings root stage deeds last)
    (gentle : ∀ limit, settings.skip ≠ .abort limit) (going : stage.aborted = false) :
    last.aborted = false := by
  induction steps with
  | refl => exact going
  | head step _ ih =>
    refine ih ?_
    cases step with
    | @hand seen queue url entries state after aborted handled =>
      have answer : (file site settings root url state).1 = false := file_not_aborted gentle url state
      rw [handled] at answer
      exact answer
    | _ => rfl

theorem default_gentle : ∀ limit, ({} : DownloadSettings).skip ≠ .abort limit := by
  intro limit asked
  cases asked

/-- Without a limit on skipped files, a download is completed. -/
theorem exists_steps_of_gentle (gentle : ∀ limit, settings.skip ≠ .abort limit)
    (finite : site.FinitelyReaches root) (files : FileSystem) :
    ∃ deeds last, Steps site settings root (Stage.start root files) deeds last ∧ last.Ended ∧
      last.aborted = false ∧ run site settings root finite files =
        ⟨.completed last.state.trail.status, last.state⟩ := by
  obtain ⟨deeds, last, steps, ended, answer⟩ := exists_steps_run finite files
  have whole := steps.not_aborted gentle rfl
  refine ⟨deeds, last, steps, ended, whole, ?_⟩
  rw [answer, Stage.outcome, whole]
  rfl

end BatchFetch.Download
