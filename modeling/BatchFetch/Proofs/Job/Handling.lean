import BatchFetch.Proofs.Job.Answers

namespace BatchFetch.Download

/-- The path whose directories have to be there for a file to be stored. -/
def folder (path : String) : String :=
  (Path.parent? path).getD ""

/-- The directories above a path cannot be created, or the file cannot be written to its end. -/
def Unstorable (files : FileSystem) (path : String) (bytes : Bytes) : Prop :=
  (∃ error made, files.createDirAll (folder path) = (.error error, made)) ∨
    ∃ made fault, files.createDirAll (folder path) = (.ok (), made) ∧
      (made.write path bytes).1 = .error fault

/-- How storing a file goes: the file system before and after, and the bits that are added. -/
inductive Storing (path : String) (bytes : Bytes) : FileSystem → FileSystem → ExitStatus → Prop
  | noFolder {files made : FileSystem} {error : IoError} :
      files.createDirAll (folder path) = (.error error, made) →
      Storing path bytes files made .general
  | unwritten {files made after : FileSystem} {fault : Fault} :
      files.createDirAll (folder path) = (.ok (), made) →
      made.write path bytes = (.error fault, after) →
      Storing path bytes files after .general
  | stored {files made after : FileSystem} :
      files.createDirAll (folder path) = (.ok (), made) →
      made.write path bytes = (.ok (), after) →
      Storing path bytes files after .success

/-- A file is skipped when something is at its destination, unless skipping is disabled. -/
def Skips (settings : DownloadSettings) (url : Url) (files : FileSystem) : Prop :=
  files.pathExists (settings.destination url) = true ∧ settings.skip ≠ .disabled

/-- How a file is dealt with: the file system before and after, and the bits that are added. -/
inductive Handling (site : Site) (settings : DownloadSettings) (url : Url) :
    FileSystem → FileSystem → ExitStatus → Prop
  | skipped {files : FileSystem} : Skips settings url files →
      Handling site settings url files files .success
  | unfetched {files : FileSystem} {error : FetchError} : ¬ Skips settings url files →
      (site.fetch url).result = .error error →
      Handling site settings url files files error.exitStatus
  | fetched {files after : FileSystem} {bytes : Bytes} {bits : ExitStatus} :
      ¬ Skips settings url files → (site.fetch url).result = .ok bytes →
      Storing (settings.destination url) bytes files after bits →
      Handling site settings url files after bits

/-- Skipping a file adds to the count and to the notes, and to nothing else. -/
theorem exists_skip (settings : DownloadSettings) (root : Url) (path : String) (state : State) :
    ∃ trail, (skip settings root path state).2 = { state with skips := state.skips + 1, trail } ∧
      trail.status = state.trail.status ∧ trail.requests = state.trail.requests := by
  simp only [skip]
  split
  · split <;> exact ⟨_, rfl, rfl, rfl⟩
  · exact ⟨_, rfl, rfl, rfl⟩

theorem skip_files (settings : DownloadSettings) (root : Url) (path : String) (state : State) :
    (skip settings root path state).2.files = state.files := by
  obtain ⟨trail, same, _⟩ := exists_skip settings root path state
  rw [same]

theorem skip_status (settings : DownloadSettings) (root : Url) (path : String) (state : State) :
    (skip settings root path state).2.trail.status = state.trail.status := by
  obtain ⟨trail, same, status, _⟩ := exists_skip settings root path state
  rw [same]
  exact status

theorem exists_storing (state : State) (path : String) (bytes : Bytes) :
    ∃ bits, Storing path bytes state.files (store state path bytes).files bits ∧
      (store state path bytes).trail.status = state.trail.status ||| bits := by
  cases created : state.files.createDirAll ((Path.parent? path).getD "") with
  | mk result made =>
    cases result with
    | error error =>
      obtain ⟨files, status⟩ : (store state path bytes).files = made ∧
          (store state path bytes).trail.status = state.trail.status ||| .general := by
        simp only [store, created]
        exact ⟨trivial, rfl⟩
      rw [files, status]
      exact ⟨.general, .noFolder created, rfl⟩
    | ok _ =>
      cases wrote : made.write path bytes with
      | mk written after =>
        cases written with
        | error fault =>
          obtain ⟨files, status⟩ : (store state path bytes).files = after ∧
              (store state path bytes).trail.status = state.trail.status ||| .general := by
            simp only [store, created, wrote]
            exact ⟨trivial, rfl⟩
          rw [files, status]
          exact ⟨.general, .unwritten created wrote, rfl⟩
        | ok _ =>
          obtain ⟨files, status⟩ : (store state path bytes).files = after ∧
              (store state path bytes).trail.status = state.trail.status := by
            simp only [store, created, wrote]
            exact ⟨trivial, rfl⟩
          rw [files, status]
          exact ⟨.success, .stored created wrote, (ExitStatus.union_success _).symm⟩

theorem file_of_skips {settings : DownloadSettings} {url : Url} {state : State}
    (skips : Skips settings url state.files) (site : Site) (root : Url) :
    file site settings root url state =
      skip settings root (settings.destination url) state := by
  simp [file, skips.1, skips.2]

/-- The state once a file was asked for; the count of skipped files starts again. -/
def State.asking (state : State) (site : Site) (url : Url) : State :=
  { state with skips := 0, trail := state.trail.asked (site.fetch url).requests }

theorem file_of_unfetched {settings : DownloadSettings} {site : Site} {url : Url} {state : State}
    {error : FetchError} (tries : ¬ Skips settings url state.files)
    (failed : (site.fetch url).result = .error error) (root : Url) :
    file site settings root url state =
      (false, { state.asking site url with
        trail := (state.asking site url).trail.fail error.exitStatus error.message }) := by
  have passed : ¬ (state.files.pathExists (settings.destination url) &&
      settings.skip ≠ .disabled) = true := by
    simpa [Skips] using tries
  simp only [file, if_neg passed, failed, State.asking]

theorem file_of_fetched {settings : DownloadSettings} {site : Site} {url : Url} {state : State}
    {bytes : Bytes} (tries : ¬ Skips settings url state.files)
    (fetched : (site.fetch url).result = .ok bytes) (root : Url) :
    file site settings root url state =
      (false, store (state.asking site url) (settings.destination url) bytes) := by
  have passed : ¬ (state.files.pathExists (settings.destination url) &&
      settings.skip ≠ .disabled) = true := by
    simpa [Skips] using tries
  simp only [file, if_neg passed, fetched, State.asking]

/-- `file` does no more to the file system and the status than `Handling` says. -/
theorem exists_handling (site : Site) (settings : DownloadSettings) (root url : Url)
    (state : State) :
    ∃ bits, Handling site settings url state.files
        (file site settings root url state).2.files bits ∧
      (file site settings root url state).2.trail.status = state.trail.status ||| bits := by
  by_cases skips : Skips settings url state.files
  · rw [file_of_skips skips, skip_files, skip_status]
    exact ⟨.success, .skipped skips, (ExitStatus.union_success _).symm⟩
  · cases fetched : (site.fetch url).result with
    | error error =>
      rw [file_of_unfetched skips fetched]
      exact ⟨error.exitStatus, .unfetched skips fetched, rfl⟩
    | ok bytes =>
      rw [file_of_fetched skips fetched]
      dsimp only
      obtain ⟨bits, storing, status⟩ :=
        exists_storing (state.asking site url) (settings.destination url) bytes
      exact ⟨bits, .fetched skips fetched storing, status⟩

/-- What is stored adds nothing, and a failure to store adds the general bit. -/
theorem Storing.bits_eq {path : String} {bytes : Bytes} {files after : FileSystem}
    {bits : ExitStatus} (storing : Storing path bytes files after bits) :
    (Unstorable files path bytes ∧ bits = .general) ∨
      (¬ Unstorable files path bytes ∧ bits = .success) := by
  cases storing with
  | noFolder created => exact Or.inl ⟨Or.inl ⟨_, _, created⟩, rfl⟩
  | unwritten created wrote =>
    exact Or.inl ⟨Or.inr ⟨_, _, created, congrArg Prod.fst wrote⟩, rfl⟩
  | stored created wrote =>
    refine Or.inr ⟨?_, rfl⟩
    rintro (⟨error, made, failed⟩ | ⟨made, fault, createdToo, unwritten⟩)
    · rw [created] at failed
      cases failed
    · rw [created] at createdToo
      cases createdToo
      rw [wrote] at unwritten
      cases unwritten

/-- A file adds a bit: it is not skipped, and either fetching it fails in the way of the bit, or the
bit is the general one and the file cannot be stored. -/
def Adds (site : Site) (settings : DownloadSettings) (url : Url) (files : FileSystem)
    (bit : ExitStatus) : Prop :=
  ¬ Skips settings url files ∧
    ((ExitStatus.ofFetch (site.fetch url).result).contains bit = true ∨
      ∃ bytes, (site.fetch url).result = .ok bytes ∧
        Unstorable files (settings.destination url) bytes ∧ bit = .general)

section

variable {site : Site} {settings : DownloadSettings} {url : Url} {files after : FileSystem}
  {bits bit : ExitStatus}

theorem Handling.contains_iff (handling : Handling site settings url files after bits)
    (isBit : bit.IsBit) : bits.contains bit = true ↔ Adds site settings url files bit := by
  cases handling with
  | skipped skips =>
    exact iff_of_false isBit.not_success_contains fun adds => adds.1 skips
  | unfetched tries failed =>
    rw [Adds, failed, and_iff_right tries]
    simp only [ExitStatus.ofFetch, reduceCtorEq, false_and, exists_false, or_false]
  | fetched tries fetched storing =>
    have none : ¬ ExitStatus.success.contains bit = true := isBit.not_success_contains
    rw [Adds, fetched, and_iff_right tries, ExitStatus.ofFetch, or_iff_right none]
    simp only [Except.ok.injEq, exists_eq_left']
    rcases storing.bits_eq with ⟨unstorable, equal⟩ | ⟨storable, equal⟩
    · rw [equal, and_iff_right unstorable]
      exact ExitStatus.isBit_general.contains_iff_eq isBit
    · rw [equal]
      exact iff_of_false none fun both => storable both.1

theorem Handling.known_contains (handling : Handling site settings url files after bits) :
    ExitStatus.known.contains bits = true := by
  cases handling with
  | skipped => decide
  | unfetched _ failed =>
    have known := ExitStatus.known_contains_ofFetch (site.fetch url).result
    rw [failed] at known
    exact known
  | fetched _ _ storing =>
    rcases storing.bits_eq with ⟨_, equal⟩ | ⟨_, equal⟩ <;> rw [equal] <;> decide

end

end BatchFetch.Download
