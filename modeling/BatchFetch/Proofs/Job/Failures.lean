import BatchFetch.Proofs.Job.Handling

namespace BatchFetch

namespace Download

/-- The bits that a deed adds; those of a file depend on the state and are told by `Adds`. -/
def Deed.bits (site : Site) : Deed → ExitStatus
  | resolve url => .ofFetch (site.expand url).result
  | report _ => .noHandler
  | hand _ => .success

/-- A file is next. -/
def Stage.At (stage : Stage) (url : Url) (state : State) : Prop :=
  ∃ seen queue entries, stage = ⟨seen, queue, .file url :: entries, state, false⟩

theorem Stage.At.next {seen queue : List Url} {url : Url} {entries : List Entry} {state : State} :
    Stage.At ⟨seen, queue, .file url :: entries, state, false⟩ url state :=
  ⟨seen, queue, entries, rfl⟩

/-- The loop comes to a file, in a state. -/
def Stage.Meets (site : Site) (settings : DownloadSettings) (root : Url) (stage : Stage)
    (url : Url) (state : State) : Prop :=
  ∃ deeds middle, Steps site settings root stage deeds middle ∧ middle.At url state

/-- These bits come from these deeds and from the files that were met. -/
structure Contributed (site : Site) (settings : DownloadSettings) (deeds : List Deed)
    (met : Url → State → Prop) (bits : ExitStatus) : Prop where
  known : ExitStatus.known.contains bits = true
  contains_iff : ∀ bit, bit.IsBit → (bits.contains bit = true ↔
    (∃ deed ∈ deeds, (deed.bits site).contains bit = true) ∨
      ∃ url state, met url state ∧ Adds site settings url state.files bit)

variable {site : Site} {settings : DownloadSettings} {root : Url}

theorem Contributed.none {met : Url → State → Prop} (nothing : ∀ url state, ¬ met url state) :
    Contributed site settings [] met .success := by
  refine ⟨by decide, fun bit isBit => iff_of_false isBit.not_success_contains ?_⟩
  rintro (⟨_, absent, _⟩ | ⟨url, state, meets, _⟩)
  · cases absent
  · exact nothing url state meets

theorem Contributed.union {deeds more : List Deed} {met later both : Url → State → Prop}
    {bits others : ExitStatus} (first : Contributed site settings deeds met bits)
    (second : Contributed site settings more later others)
    (either : ∀ url state, both url state ↔ met url state ∨ later url state) :
    Contributed site settings (deeds ++ more) both (bits ||| others) := by
  refine ⟨ExitStatus.contains_of_union.mpr ⟨first.known, second.known⟩, fun bit isBit => ?_⟩
  rw [isBit.contains_union, first.contains_iff bit isBit, second.contains_iff bit isBit]
  simp only [List.mem_append, either, or_and_right, exists_or]
  exact or_or_or_comm

theorem Stage.not_at_of_noFile {stage : Stage}
    (noFile : ∀ url rest, stage.entries = .file url :: rest → stage.aborted = true) (url : Url)
    (state : State) : ¬ stage.At url state := by
  rintro ⟨seen, queue, rest, rfl⟩
  cases noFile url rest rfl

theorem Stage.Ended.not_meets {stage : Stage} (ended : stage.Ended) (url : Url) (state : State) :
    ¬ stage.Meets site settings root url state := by
  rintro ⟨deeds, middle, steps, at_⟩
  cases steps with
  | head step _ => exact ended.no_step step
  | refl =>
    refine stage.not_at_of_noFile ?_ url state at_
    intro url rest entries
    rcases ended with aborted | ⟨_, noEntries⟩
    · exact aborted
    · rw [noEntries] at entries
      cases entries

/-- A file that is met is next, or is met after a turn. -/
theorem Step.meets_iff {stage middle : Stage} {deeds : List Deed}
    (step : Step site settings root stage deeds middle) (url : Url) (state : State) :
    stage.Meets site settings root url state ↔
      stage.At url state ∨ middle.Meets site settings root url state := by
  constructor
  · rintro ⟨done, other, steps, at_⟩
    cases steps with
    | refl => exact Or.inl at_
    | head first rest =>
      obtain ⟨_, rfl⟩ := first.deterministic step
      exact Or.inr ⟨_, other, rest, at_⟩
  · rintro (at_ | ⟨done, other, steps, at_⟩)
    · exact ⟨[], stage, .refl stage, at_⟩
    · exact ⟨_, other, .head step steps, at_⟩

/-- What one deed adds, where no file is next. -/
theorem Contributed.ofDeed {stage : Stage} {deed : Deed}
    (known : ExitStatus.known.contains (deed.bits site) = true)
    (noFile : ∀ url rest, stage.entries = .file url :: rest → stage.aborted = true) :
    Contributed site settings [deed] stage.At (deed.bits site) := by
  refine ⟨known, fun bit _ => ?_⟩
  simp only [List.mem_singleton, exists_eq_left, stage.not_at_of_noFile noFile, false_and,
    exists_false, or_false]

/-- What a turn adds to the status. -/
theorem Step.contributed {stage middle : Stage} {deeds : List Deed}
    (step : Step site settings root stage deeds middle) :
    ∃ bits, middle.state.trail.status = stage.state.trail.status ||| bits ∧
      Contributed site settings deeds stage.At bits := by
  cases step with
  | @resolve seen queue url state =>
    refine ⟨_, ?_, .ofDeed (ExitStatus.known_contains_ofFetch _) fun _ _ entries => by cases entries⟩
    simp only [Trail.resolved, Deed.bits]
    cases (site.expand url).result with
    | ok => exact (ExitStatus.union_success _).symm
    | error => rfl
  | @hand seen queue url entries state after aborted handled =>
    obtain ⟨bits, handling, status⟩ := exists_handling site settings root url state
    rw [handled] at handling status
    refine ⟨bits, status, handling.known_contains, fun bit isBit => ?_⟩
    rw [handling.contains_iff isBit]
    constructor
    · exact fun adds => Or.inr ⟨url, state, ⟨seen, queue, entries, rfl⟩, adds⟩
    · rintro (⟨deed, member, inside⟩ | ⟨other, state, ⟨_, _, _, same⟩, adds⟩)
      · rw [List.mem_singleton.mp member] at inside
        exact absurd inside isBit.not_success_contains
      · cases same
        exact adds
  | known =>
    refine ⟨.success, (ExitStatus.union_success _).symm, .none ?_⟩
    exact Stage.not_at_of_noFile fun _ _ entries => by cases entries
  | discover =>
    refine ⟨.success, (ExitStatus.union_success _).symm, .none ?_⟩
    exact Stage.not_at_of_noFile fun _ _ entries => by cases entries
  | @report seen queue child entries state _ _ =>
    have known : ExitStatus.known.contains ((Deed.report child).bits site) = true := by
      rw [Deed.bits]
      decide
    exact ⟨.noHandler, rfl, .ofDeed known fun _ _ entries => by cases entries⟩

/-- What a run to the end adds to the status. -/
theorem Steps.contributed {stage last : Stage} {deeds : List Deed}
    (steps : Steps site settings root stage deeds last) (ended : last.Ended) :
    ∃ bits, last.state.trail.status = stage.state.trail.status ||| bits ∧
      Contributed site settings deeds (stage.Meets site settings root) bits := by
  induction steps with
  | refl stage => exact ⟨.success, (ExitStatus.union_success _).symm, .none ended.not_meets⟩
  | head step _ ih =>
    obtain ⟨bits, status, contributed⟩ := step.contributed
    obtain ⟨others, statusAfter, contributedAfter⟩ := ih ended
    refine ⟨bits ||| others, ?_, contributed.union contributedAfter step.meets_iff⟩
    rw [statusAfter, status, ExitStatus.union_assoc]

theorem Steps.contributed_of_start {files : FileSystem} {last : Stage} {deeds : List Deed}
    (steps : Steps site settings root (Stage.start root files) deeds last) (ended : last.Ended) :
    Contributed site settings deeds ((Stage.start root files).Meets site settings root)
      last.state.trail.status := by
  obtain ⟨bits, added, contributed⟩ := steps.contributed ended
  have whole : last.state.trail.status = bits := added.trans (ExitStatus.success_union bits)
  rw [whole]
  exact contributed

theorem exists_deed_noHandler {deeds : List Deed} :
    (∃ deed ∈ deeds, (deed.bits site).contains .noHandler = true) ↔ ∃ url, .report url ∈ deeds := by
  constructor
  · rintro ⟨deed, member, inside⟩
    cases deed with
    | resolve url => exact absurd inside (ExitStatus.not_ofFetch_contains_noHandler _)
    | report url => exact ⟨url, member⟩
    | hand url => exact absurd inside ExitStatus.isBit_noHandler.not_success_contains
  · rintro ⟨url, member⟩
    exact ⟨_, member, ExitStatus.contains_iff_union.mpr (ExitStatus.union_self _)⟩

theorem exists_deed_other {deeds : List Deed} {bit : ExitStatus} (isBit : bit.IsBit)
    (other : bit ≠ .noHandler) :
    (∃ deed ∈ deeds, (deed.bits site).contains bit = true) ↔
      ∃ url, .resolve url ∈ deeds ∧
        (ExitStatus.ofFetch (site.expand url).result).contains bit = true := by
  constructor
  · rintro ⟨deed, member, inside⟩
    cases deed with
    | resolve url => exact ⟨url, member, inside⟩
    | report url => exact absurd ((ExitStatus.isBit_noHandler.contains_iff_eq isBit).mp inside) other
    | hand url => exact absurd inside isBit.not_success_contains
  · rintro ⟨url, member, inside⟩
    exact ⟨_, member, inside⟩

theorem adds_other_iff {url : Url} {files : FileSystem} {bit : ExitStatus} (other : bit ≠ .general) :
    Adds site settings url files bit ↔ ¬ Skips settings url files ∧
      (ExitStatus.ofFetch (site.fetch url).result).contains bit = true := by
  rw [Adds]
  simp only [other, and_false, exists_false, or_false]

theorem adds_general_iff {url : Url} {files : FileSystem} :
    Adds site settings url files .general ↔ ¬ Skips settings url files ∧
      ∃ bytes, (site.fetch url).result = .ok bytes ∧
        Unstorable files (settings.destination url) bytes := by
  rw [Adds, or_iff_right (ExitStatus.not_ofFetch_contains_general _)]
  simp only [and_true]

/-- A file is met that is not skipped, so that it is asked for. -/
def Stage.Fetches (site : Site) (settings : DownloadSettings) (root : Url) (stage : Stage)
    (url : Url) (state : State) : Prop :=
  stage.Meets site settings root url state ∧ ¬ Skips settings url state.files

end Download

namespace Registry

variable {registry : Registry} {get : Url → Exchange} {root : Url}

/-- Those reachable targets that nothing claims are named by playlists that could be read. -/
theorem BuiltIn.exists_unclaimed_iff (builtIn : registry.BuiltIn) (get : Url → Exchange)
    (claimed : (registry.find? root).isSome) :
    (∃ url, (registry.siteBy get).Reaches root url ∧ registry.find? url = none) ↔
      ∃ url page child, (registry.siteBy get).Reaches root url ∧ registry.IsPlaylist url ∧
        (get url).Yields page ∧ Entry.queue child ∈ registry.entriesOf url page ∧
        registry.find? child = none := by
  constructor
  · rintro ⟨child, reach, unclaimed⟩
    cases reach with
    | root =>
      rw [unclaimed] at claimed
      cases claimed
    | @child url _ reach named =>
      obtain ⟨isPlaylist, page, yields, member⟩ := (builtIn.mem_children_iff get).mp named
      exact ⟨url, page, child, reach, isPlaylist, yields, member, unclaimed⟩
  · rintro ⟨url, page, child, reach, isPlaylist, yields, member, unclaimed⟩
    exact ⟨child, reach.child ((builtIn.mem_children_iff get).mpr ⟨isPlaylist, page, yields, member⟩),
      unclaimed⟩

theorem IsPlaylist.claims {url : Url} (isPlaylist : registry.IsPlaylist url) (get : Url → Exchange) :
    (registry.siteBy get).claims url = true := by
  simp only [siteBy, show registry.find? url = _ from isPlaylist, Option.isSome_some]

section

variable {settings : DownloadSettings} {deeds : List Download.Deed}
  {met : Url → Download.State → Prop} {status : ExitStatus}
  (contributed : Download.Contributed (registry.siteBy get) settings deeds met status)

include contributed

/-- A bit that playlists and files add when they fail alike, told by what came back for them. -/
theorem failure_contains_iff (breadth : Download.BreadthFirst (registry.siteBy get) root deeds)
    {bit : ExitStatus} {Fails : Exchange → Prop} (isBit : bit.IsBit)
    (notReported : bit ≠ .noHandler) (notStored : bit ≠ .general)
    (resolving : ∀ url, (ExitStatus.ofFetch
      ((registry.siteBy get).expand url).result).contains bit = true ↔
        registry.IsPlaylist url ∧ Fails (get url))
    (fetching : ∀ url, (ExitStatus.ofFetch
      ((registry.siteBy get).fetch url).result).contains bit = true ↔ Fails (get url)) :
    status.contains bit = true ↔
      (∃ url, (registry.siteBy get).Reaches root url ∧ registry.IsPlaylist url ∧ Fails (get url)) ∨
        ∃ url state, (met url state ∧ ¬ Download.Skips settings url state.files) ∧
          Fails (get url) := by
  have resolved (url : Url) : .resolve url ∈ deeds ↔
      (registry.siteBy get).Reaches root url ∧ (registry.siteBy get).claims url = true :=
    Download.Deed.mem_resolved.symm.trans (breadth.resolved_iff url)
  rw [contributed.contains_iff bit isBit, Download.exists_deed_other isBit notReported]
  simp only [Download.adds_other_iff notStored, resolved, resolving, fetching, and_assoc]
  refine or_congr (exists_congr fun url => and_congr_right fun _ => ?_) Iff.rfl
  exact and_iff_right_of_imp fun both => both.1.claims get

theorem noHandler_contains_iff (builtIn : registry.BuiltIn)
    (claimed : (registry.find? root).isSome)
    (breadth : Download.BreadthFirst (registry.siteBy get) root deeds) :
    status.contains .noHandler = true ↔
      ∃ url page child, (registry.siteBy get).Reaches root url ∧ registry.IsPlaylist url ∧
        (get url).Yields page ∧ Entry.queue child ∈ registry.entriesOf url page ∧
        registry.find? child = none := by
  have reported (url : Url) : .report url ∈ deeds ↔
      (registry.siteBy get).Reaches root url ∧ registry.find? url = none :=
    (Download.Deed.mem_reported.symm.trans (breadth.reported_iff url)).trans
      (and_congr_right fun _ => not_claims_iff)
  rw [contributed.contains_iff _ ExitStatus.isBit_noHandler, Download.exists_deed_noHandler,
    ← builtIn.exists_unclaimed_iff get claimed]
  simp only [reported]
  refine or_iff_left ?_
  rintro ⟨url, state, _, adds⟩
  rw [Download.adds_other_iff (by decide)] at adds
  exact ExitStatus.not_ofFetch_contains_noHandler _ adds.2

theorem general_contains_iff :
    status.contains .general = true ↔
      ∃ url state page, (met url state ∧ ¬ Download.Skips settings url state.files) ∧
        (get url).Yields page ∧
        Download.Unstorable state.files (settings.destination url) page.body := by
  have noneResolved : ¬ ∃ url, .resolve url ∈ deeds ∧ (ExitStatus.ofFetch
      ((registry.siteBy get).expand url).result).contains .general = true := by
    rintro ⟨_, _, inside⟩
    exact ExitStatus.not_ofFetch_contains_general _ inside
  rw [contributed.contains_iff _ ExitStatus.isBit_general,
    Download.exists_deed_other ExitStatus.isBit_general (by decide), or_iff_right noneResolved]
  simp only [Download.adds_general_iff]
  constructor
  · rintro ⟨url, state, meets, tries, bytes, came, unstorable⟩
    obtain ⟨page, yields, rfl⟩ := fetch_ok_iff.mp came
    exact ⟨url, state, page, ⟨meets, tries⟩, yields, unstorable⟩
  · rintro ⟨url, state, page, ⟨meets, tries⟩, yields, unstorable⟩
    exact ⟨url, state, meets, tries, page.body, fetch_ok_iff.mpr ⟨page, yields, rfl⟩, unstorable⟩

end

/-- Each bit of a completed download has its own causes, and no others are there: 64 an unclaimed
entry of a playlist that was read, 8 and 4 a playlist or a file that was not there or came to grief
otherwise, and 1 a file that came but could not be stored. A skipped file leaves the status alone. -/
theorem download_bits_exact (registry : Registry) (builtIn : registry.BuiltIn)
    (get : Url → Exchange) (settings : DownloadSettings) (root : Url) (files : FileSystem)
    (claimed : (registry.find? root).isSome)
    (finite : (registry.siteBy get).FinitelyReaches root) (status : ExitStatus)
    (completed : (Download.run (registry.siteBy get) settings root finite files).outcome =
      .completed status) :
    let site := registry.siteBy get
    let start := Download.Stage.start root files
    (status.contains .noHandler = true ↔
      ∃ url page child, site.Reaches root url ∧ registry.IsPlaylist url ∧ (get url).Yields page ∧
        Entry.queue child ∈ registry.entriesOf url page ∧ registry.find? child = none) ∧
    (status.contains .missing = true ↔
      (∃ url, site.Reaches root url ∧ registry.IsPlaylist url ∧ (get url).IsMissing) ∨
        ∃ url state, start.Fetches site settings root url state ∧ (get url).IsMissing) ∧
    (status.contains .http = true ↔
      (∃ url, site.Reaches root url ∧ registry.IsPlaylist url ∧ (get url).IsBroken) ∨
        ∃ url state, start.Fetches site settings root url state ∧ (get url).IsBroken) ∧
    (status.contains .general = true ↔
      ∃ url state page, start.Fetches site settings root url state ∧ (get url).Yields page ∧
        Download.Unstorable state.files (settings.destination url) page.body) ∧
    ExitStatus.known.contains status = true ∧
    (∀ url state, start.Meets site settings root url state →
      Download.Skips settings url state.files →
      (Download.file site settings root url state).2.trail.status = state.trail.status) := by
  intro site start
  obtain ⟨deeds, last, steps, ended, whole, rfl, _⟩ := Download.exists_steps_of_completed completed
  have breadth := steps.breadthFirst ended whole claimed
  have contributed := steps.contributed_of_start ended
  refine ⟨noHandler_contains_iff contributed builtIn claimed breadth, ?_, ?_,
    general_contains_iff contributed, contributed.known, ?_⟩
  · exact failure_contains_iff contributed breadth ExitStatus.isBit_missing (by decide) (by decide)
      (builtIn.expand_missing_iff get) (fetch_missing_iff registry get)
  · exact failure_contains_iff contributed breadth ExitStatus.isBit_http (by decide) (by decide)
      (builtIn.expand_http_iff get) (fetch_http_iff registry get)
  · intro url state _ skips
    rw [Download.file_of_skips skips, Download.skip_status]

/-- A playlist that names another one, which is not there, and a target that nothing claims. -/
def patchyPage : Page where
  body := Text.Utf8.encode "b.m3u\nx\n".toList

def patchyWeb : Web where
  pages := [(cyclicUrl "a.m3u", patchyPage)]

theorem download_bits_exact_patchy :
    standard.BuiltIn ∧ (standard.find? (cyclicUrl "a.m3u")).isSome ∧
    ∃ finite : (standard.siteBy patchyWeb.get).FinitelyReaches (cyclicUrl "a.m3u"),
    ∃ status, (Download.run (standard.siteBy patchyWeb.get) {} (cyclicUrl "a.m3u") finite {}).outcome =
        .completed status ∧
      status.contains .noHandler = true ∧ status.contains .missing = true ∧
      ExitStatus.known.contains status = true := by
  have claimed : (standard.find? (cyclicUrl "a.m3u")).isSome := by decide +kernel
  have finite : (standard.siteBy patchyWeb.get).FinitelyReaches (cyclicUrl "a.m3u") :=
    finitelyReaches standard patchyWeb (cyclicUrl "a.m3u")
  obtain ⟨_, last, _, _, _, answer⟩ :=
    Download.exists_steps_of_gentle Download.default_gentle finite {}
  have completed : (Download.run (standard.siteBy patchyWeb.get) {} (cyclicUrl "a.m3u") finite
      {}).outcome = .completed last.state.trail.status := by
    rw [answer]
  obtain ⟨unclaimed, missing, _, _, known, _⟩ :=
    download_bits_exact standard standard_builtIn patchyWeb.get {} (cyclicUrl "a.m3u") {} claimed
      finite _ completed
  have isPlaylist : standard.IsPlaylist (cyclicUrl "a.m3u") := by
    show standard.find? _ = _
    decide +kernel
  refine ⟨standard_builtIn, claimed, finite, _, completed, unclaimed.mpr ?_, missing.mpr ?_, known⟩
  · have came : (patchyWeb.get (cyclicUrl "a.m3u")).Yields patchyPage := by
      refine ⟨?_, ?_, ?_⟩ <;> decide +kernel
    exact ⟨cyclicUrl "a.m3u", patchyPage, cyclicUrl "x", .root, isPlaylist, came,
      by decide +kernel, by decide +kernel⟩
  · have absent : (patchyWeb.get (cyclicUrl "b.m3u")).IsMissing :=
      ⟨{ status := 404 }, by decide +kernel, rfl⟩
    refine Or.inl ⟨cyclicUrl "b.m3u", .child .root (by decide +kernel), ?_, absent⟩
    show standard.find? _ = _
    decide +kernel

end Registry
end BatchFetch
