import BatchFetch.Proofs.Job.Failures
import BatchFetch.Proofs.Job.Targets

namespace BatchFetch.Download

/-- The failure of what has not been done. -/
def failure? {ε α : Type} : Except ε α → Option ε
  | .ok _ => none
  | .error e => some e

/-- One thing done to the outside. What has not been done, or not to its end, is noted with its
failure. -/
inductive Act where
  | ask (url : Url)
  | makeDirs (path : String) (failure : Option IoError)
  | write (path : String) (bytes : Bytes) (failure : Option Fault)
  deriving DecidableEq

namespace Act

def asked? : Act → Option Url
  | ask url => some url
  | _ => none

/-- The path of a file that has been written to, if only in part. -/
def reached? : Act → Option String
  | write path _ none => some path
  | write path _ (some fault) => fault.kept.map fun _ => path
  | _ => none

def perform (files : FileSystem) : Act → FileSystem
  | ask _ => files
  | makeDirs path _ => (files.createDirAll path).2
  | write path bytes _ => (files.write path bytes).2

theorem asked_map_ask (urls : List Url) : (urls.map ask).filterMap asked? = urls := by
  rw [List.filterMap_map]
  exact List.filterMap_some

theorem reached_map_ask (urls : List Url) : (urls.map ask).filterMap reached? = [] := by
  rw [List.filterMap_map]
  exact List.filterMap_eq_nil_iff.mpr fun _ _ => rfl

theorem foldl_perform_map_ask (files : FileSystem) (urls : List Url) :
    (urls.map ask).foldl perform files = files := by
  rw [List.foldl_map]
  exact List.foldl_fixed urls

end Act

/-- The acts of storing a file. -/
def storeActs (files : FileSystem) (path : String) (bytes : Bytes) : List Act :=
  let (created, made) := files.createDirAll (folder path)
  .makeDirs (folder path) (failure? created) ::
    match created with
    | .error _ => []
    | .ok _ => [.write path bytes (failure? (made.write path bytes).1)]

/-- The acts of handling a file. -/
def fileActs (site : Site) (settings : DownloadSettings) (url : Url) (files : FileSystem) :
    List Act :=
  let path := settings.destination url
  if files.pathExists path && settings.skip ≠ .disabled then []
  else
    let fetched := site.fetch url
    fetched.requests.map .ask ++
      match fetched.result with
      | .error _ => []
      | .ok bytes => storeActs files path bytes

/-- The acts of the turn that is taken at a stage. -/
def Stage.acts (site : Site) (settings : DownloadSettings) (stage : Stage) : List Act :=
  if stage.aborted then []
  else
    match stage.entries, stage.queue with
    | .file url :: _, _ => fileActs site settings url stage.state.files
    | .queue _ :: _, _ => []
    | [], url :: _ => (site.expand url).requests.map .ask
    | [], [] => []

/-- Turns of the loop from a stage on, with the stages at which they were taken. -/
inductive Passes (site : Site) (settings : DownloadSettings) (root : Url) (start : Stage) :
    List Stage → Stage → Prop
  | here : Passes site settings root start [] start
  | next {passed : List Stage} {stage middle : Stage} {deeds : List Deed} :
      Passes site settings root start passed stage →
      Step site settings root stage deeds middle →
      Passes site settings root start (passed ++ [stage]) middle

variable {site : Site} {settings : DownloadSettings} {root : Url}

theorem Passes.after {first stage last : Stage} {deeds : List Deed} {passed : List Stage}
    (passes : Passes site settings root stage passed last)
    (step : Step site settings root first deeds stage) :
    Passes site settings root first (first :: passed) last := by
  induction passes with
  | here => exact .next .here step
  | next _ later ih => exact .next ih later

theorem Steps.exists_passes {stage last : Stage} {deeds : List Deed}
    (steps : Steps site settings root stage deeds last) :
    ∃ passed, Passes site settings root stage passed last := by
  induction steps with
  | refl => exact ⟨[], .here⟩
  | head step _ ih =>
    obtain ⟨passed, passes⟩ := ih
    exact ⟨_, passes.after step⟩

theorem Passes.exists_steps {start last : Stage} {passed : List Stage}
    (passes : Passes site settings root start passed last) :
    ∃ deeds, Steps site settings root start deeds last := by
  induction passes with
  | here => exact ⟨[], .refl _⟩
  | next _ step ih =>
    obtain ⟨deeds, steps⟩ := ih
    exact ⟨_, steps.trans (.head step (.refl _))⟩

/-- A download passes the stages from its start to its end. -/
theorem exists_passes_run (finite : site.FinitelyReaches root) (files : FileSystem) :
    ∃ passed last, Passes site settings root (.start root files) passed last ∧ last.Ended ∧
      run site settings root finite files = ⟨last.outcome, last.state⟩ := by
  obtain ⟨_, last, steps, ended, answer⟩ := exists_steps_run finite files
  obtain ⟨passed, passes⟩ := steps.exists_passes
  exact ⟨passed, last, passes, ended, answer⟩

/-- A target that is a file itself takes two turns. -/
theorem exists_passes_direct (itself : site.entries root = [.file root]) (files : FileSystem) :
    let state : State := { files, trail := Trail.resolved {} root (site.expand root) }
    let after := file site settings root root state
    ∃ passed, Passes site settings root (.start root files) passed
      ⟨[root], [], [], after.2, after.1⟩ := by
  intro state after
  have resolve : Step site settings root (.start root files) [.resolve root]
      ⟨[root], [], [.file root], state, false⟩ := itself ▸ .resolve
  exact ⟨_, .next (.next .here resolve) (.hand rfl)⟩

theorem foldl_storeActs (state : State) (path : String) (bytes : Bytes) :
    (storeActs state.files path bytes).foldl Act.perform state.files =
        (store state path bytes).files ∧
      (storeActs state.files path bytes).filterMap Act.asked? = [] ∧
      (store state path bytes).trail.requests = state.trail.requests := by
  have folder_eq : folder path = (Path.parent? path).getD "" := rfl
  cases created : state.files.createDirAll (folder path) with
  | mk result made =>
    cases result with
    | error error =>
      simp only [storeActs, store, ← folder_eq, created]
      refine ⟨?_, rfl, rfl⟩
      rw [List.foldl_cons, List.foldl_nil, Act.perform, created]
    | ok _ =>
      have performed : (store state path bytes).files = (made.write path bytes).2 ∧
          (store state path bytes).trail.requests = state.trail.requests := by
        simp only [store, ← folder_eq, created]
        rcases made.write path bytes with ⟨_ | _, after⟩ <;> exact ⟨rfl, rfl⟩
      rw [performed.1, performed.2]
      simp only [storeActs, created, and_true]
      refine ⟨?_, rfl⟩
      rw [List.foldl_cons, List.foldl_cons, List.foldl_nil, Act.perform, Act.perform, created]

theorem skip_requests (settings : DownloadSettings) (root : Url) (path : String) (state : State) :
    (skip settings root path state).2.trail.requests = state.trail.requests := by
  obtain ⟨trail, same, _, requests⟩ := exists_skip settings root path state
  rw [same]
  exact requests

theorem fileActs_of_skips {url : Url} {files : FileSystem} (skips : Skips settings url files)
    (site : Site) : fileActs site settings url files = [] := by
  simp [fileActs, skips.1, skips.2]

theorem fileActs_of_tries {url : Url} {files : FileSystem} (tries : ¬ Skips settings url files)
    (site : Site) :
    fileActs site settings url files = (site.fetch url).requests.map .ask ++
      match (site.fetch url).result with
      | .error _ => []
      | .ok bytes => storeActs files (settings.destination url) bytes := by
  have passed : ¬ (files.pathExists (settings.destination url) &&
      settings.skip ≠ .disabled) = true := by
    simpa [Skips] using tries
  simp only [fileActs, if_neg passed]

theorem foldl_fileActs (site : Site) (settings : DownloadSettings) (root url : Url) (state : State) :
    (fileActs site settings url state.files).foldl Act.perform state.files =
        (file site settings root url state).2.files ∧
      (file site settings root url state).2.trail.requests =
        state.trail.requests ++ (fileActs site settings url state.files).filterMap Act.asked? := by
  by_cases skips : Skips settings url state.files
  · rw [fileActs_of_skips skips, file_of_skips skips, skip_files, skip_requests]
    exact ⟨rfl, (List.append_nil _).symm⟩
  · rw [fileActs_of_tries skips, List.foldl_append, Act.foldl_perform_map_ask,
      List.filterMap_append, Act.asked_map_ask]
    cases fetched : (site.fetch url).result with
    | error error =>
      rw [file_of_unfetched skips fetched]
      exact ⟨rfl, by rw [List.filterMap_nil, List.append_nil]; rfl⟩
    | ok bytes =>
      rw [file_of_fetched skips fetched]
      obtain ⟨performed, noneAsked, requests⟩ :=
        foldl_storeActs (state.asking site url) (settings.destination url) bytes
      have same : (state.asking site url).files = state.files := rfl
      rw [same] at performed noneAsked
      exact ⟨performed, by rw [requests, noneAsked, List.append_nil]; rfl⟩

theorem Step.performs {stage middle : Stage} {deeds : List Deed}
    (step : Step site settings root stage deeds middle) :
    middle.state.files = (stage.acts site settings).foldl Act.perform stage.state.files ∧
      middle.state.trail.requests =
        stage.state.trail.requests ++ (stage.acts site settings).filterMap Act.asked? := by
  cases step with
  | @resolve seen queue url state =>
    have acts : Stage.acts site settings ⟨seen, url :: queue, [], state, false⟩ =
        (site.expand url).requests.map .ask := rfl
    rw [acts, Act.foldl_perform_map_ask, Act.asked_map_ask]
    refine ⟨rfl, ?_⟩
    simp only [Trail.resolved]
    cases (site.expand url).result <;> rfl
  | @hand seen queue url entries state after aborted handled =>
    obtain ⟨performed, requests⟩ := foldl_fileActs site settings root url state
    rw [handled] at performed requests
    exact ⟨performed.symm, requests⟩
  | known | discover | report => exact ⟨rfl, (List.append_nil _).symm⟩

theorem Passes.performs {start last : Stage} {passed : List Stage}
    (passes : Passes site settings root start passed last) :
    last.state.files =
        (passed.flatMap (Stage.acts site settings)).foldl Act.perform start.state.files ∧
      last.state.trail.requests = start.state.trail.requests ++
        (passed.flatMap (Stage.acts site settings)).filterMap Act.asked? := by
  induction passes with
  | here => exact ⟨rfl, (List.append_nil _).symm⟩
  | next _ step ih =>
    obtain ⟨files, requests⟩ := step.performs
    rw [List.flatMap_append, List.flatMap_singleton, List.foldl_append, List.filterMap_append,
      ← ih.1, ← List.append_assoc, ← ih.2]
    exact ⟨files, requests⟩

theorem mem_storeActs {files : FileSystem} {path : String} {bytes : Bytes} {act : Act}
    (member : act ∈ storeActs files path bytes) :
    (∃ failure, act = .makeDirs (folder path) failure) ∨ ∃ failure, act = .write path bytes failure := by
  rw [storeActs] at member
  rcases List.mem_cons.mp member with same | later
  · exact Or.inl ⟨_, same⟩
  · split at later
    · cases later
    · exact Or.inr ⟨_, List.mem_singleton.mp later⟩

/-- An act asks a server, or it is one of those of storing a file that has come. -/
theorem mem_fileActs {url : Url} {files : FileSystem} {act : Act}
    (member : act ∈ fileActs site settings url files) :
    (∃ asked, act = .ask asked) ∨ ∃ bytes, ¬ Skips settings url files ∧
      (site.fetch url).result = .ok bytes ∧
      act ∈ storeActs files (settings.destination url) bytes := by
  by_cases skips : Skips settings url files
  · rw [fileActs_of_skips skips] at member
    cases member
  · rw [fileActs_of_tries skips] at member
    rcases List.mem_append.mp member with asked | stored
    · obtain ⟨other, _, same⟩ := List.mem_map.mp asked
      exact Or.inl ⟨other, same.symm⟩
    · cases fetched : (site.fetch url).result with
      | error => simp [fetched] at stored
      | ok bytes =>
        rw [fetched] at stored
        exact Or.inr ⟨bytes, skips, rfl, stored⟩

theorem Stage.mem_acts {stage : Stage} {act : Act} (member : act ∈ stage.acts site settings) :
    (∃ asked, act = .ask asked) ∨
      ∃ url state, stage.At url state ∧ act ∈ fileActs site settings url state.files := by
  obtain ⟨seen, queue, entries, state, aborted⟩ := stage
  rw [acts] at member
  split_ifs at member with going
  · cases member
  · rw [Bool.not_eq_true] at going
    simp only at going member
    split at member
    · exact Or.inr ⟨_, state, ⟨seen, queue, _, by rw [going]⟩, member⟩
    · cases member
    · obtain ⟨other, _, same⟩ := List.mem_map.mp member
      exact Or.inl ⟨other, same.symm⟩
    · cases member

/-- The entries that are left are among those that the root leads to. -/
def Stage.FilesInside (site : Site) (root : Url) (stage : Stage) : Prop :=
  ∀ file, .file file ∈ stage.entries → site.ReachesFile root file

theorem Step.filesInside {stage middle : Stage} {deeds : List Deed}
    (step : Step site settings root stage deeds middle) (inside : stage.Inside site root)
    (files : stage.FilesInside site root) : middle.FilesInside site root := by
  cases step with
  | @resolve seen queue url state =>
    intro file member
    exact ⟨url, inside url List.mem_cons_self, member⟩
  | hand | known | discover | report =>
    exact fun file member => files file (List.mem_cons_of_mem _ member)

theorem Passes.inside {start last : Stage} {passed : List Stage}
    (passes : Passes site settings root start passed last) (inside : start.Inside site root)
    (files : start.FilesInside site root) :
    (last.Inside site root ∧ last.FilesInside site root) ∧
      ∀ stage ∈ passed, stage.FilesInside site root := by
  induction passes with
  | here => exact ⟨⟨inside, files⟩, fun _ absent => absurd absent List.not_mem_nil⟩
  | next _ step ih =>
    obtain ⟨⟨insideStage, filesStage⟩, before⟩ := ih
    refine ⟨⟨(step.inside insideStage).1, step.filesInside insideStage filesStage⟩, ?_⟩
    intro stage member
    rcases List.mem_append.mp member with earlier | same
    · exact before stage earlier
    · exact List.mem_singleton.mp same ▸ filesStage

theorem Stage.filesInside_start (site : Site) (root : Url) (files : FileSystem) :
    (Stage.start root files).FilesInside site root :=
  fun _ absent => absurd absent List.not_mem_nil

theorem Passes.filesInside {files : FileSystem} {last : Stage} {passed : List Stage}
    (passes : Passes site settings root (.start root files) passed last) :
    last.FilesInside site root ∧ ∀ stage ∈ passed, stage.FilesInside site root := by
  obtain ⟨⟨_, atLast⟩, before⟩ :=
    passes.inside (Stage.inside_start site root files) (Stage.filesInside_start site root files)
  exact ⟨atLast, before⟩

theorem Stage.At.reachesFile {stage : Stage} {url : Url} {state : State} (at_ : stage.At url state)
    (files : stage.FilesInside site root) : site.ReachesFile root url := by
  obtain ⟨seen, queue, entries, rfl⟩ := at_
  exact files url List.mem_cons_self

end BatchFetch.Download
