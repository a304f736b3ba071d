import BatchFetch.Proofs.Files.Additions
import BatchFetch.Proofs.Job.Acts
import BatchFetch.Proofs.Job.Clean

namespace BatchFetch

namespace Registry

/-- A file that a root leads to, and its name on the server, which leads nowhere else. -/
structure LeadsToFile (registry : Registry) (get : Url → Exchange) (root file : Url)
    (name : String) : Prop where
  reaches : (registry.siteBy get).Reaches root file
  direct : registry.find? file = some .direct
  last : file.lastSegment? = some name
  some : name ≠ ""
  noSlash : '/' ∉ name.toList
  notHere : name ≠ "."
  notUp : name ≠ ".."

theorem LeadsToFile.isPlain {registry : Registry} {get : Url → Exchange} {root file : Url}
    {name : String} (leads : registry.LeadsToFile get root file name) : Path.IsPlain name where
  noSlash := leads.noSlash
  notIdle := by simp [Path.isIdle, leads.some, leads.notHere]
  notUp := leads.notUp

theorem BuiltIn.leadsToFile {registry : Registry} (builtIn : registry.BuiltIn)
    {get : Url → Exchange} {root file : Url} (served : root.Served)
    (reaches : (registry.siteBy get).ReachesFile root file) :
    registry.LeadsToFile get root file (DownloadSettings.segmentOf file) := by
  obtain ⟨reach, direct⟩ := (builtIn.reachesFile_iff get).mp reaches
  have extended := (builtIn.claims direct).2
  have plain := (builtIn.served_of_reachesFile served reaches).isPlain extended
  have notIdle := plain.notIdle
  rw [Path.isIdle, Bool.or_eq_false_iff, beq_eq_false_iff_ne] at notIdle
  refine ⟨reach, direct, Url.lastSegment?_of_extension extended, ?_, plain.noSlash, notIdle.2,
    plain.notUp⟩
  intro empty
  rw [empty] at notIdle
  exact absurd notIdle.1 (by decide)

/-- How a place may differ from what it was: a file is in the base directory, under its name on the
server, or a directory is new that lies above such a file. -/
inductive Confined (registry : Registry) (get : Url → Exchange) (root : Url) (base : String)
    (files after : FileSystem) (place : Place) : Prop
  | file {file : Url} {name : String} {folder : Place} {bytes : Bytes} :
      registry.LeadsToFile get root file name →
      after.Leads (after.origin base) (Path.pieces base) (.dir folder) →
      place = folder ++ [name] → after.node? place = some (.file bytes) →
      Confined registry get root base files after place
  | folder {file : Url} {name above : String} :
      registry.LeadsToFile get root file name →
      Path.Ancestor (Path.join base name) above → files.node? place = none →
      after.node? place = some .dir → after.locate above = .ok (.dir place) →
      Confined registry get root base files after place

variable {registry : Registry} {get : Url → Exchange} {root : Url} {base : String} {place : Place}

theorem Confined.mono {first files after last : FileSystem}
    (confined : registry.Confined get root base files after place) (grows : first.Grows files)
    (later : after.Grows last) : registry.Confined get root base first last place := by
  cases confined with
  | file leads toFolder same now =>
    obtain ⟨bytes, now⟩ := later.file _ _ now
    exact .file leads (later.origin base ▸ later.leads_dir toFolder) same now
  | folder leads above before now located =>
    exact .folder leads above (grows.none_of_none before) (later.dir _ now)
      (later.locate_dir located)

theorem confined_of_createDirAll {file : Url} {name : String}
    (leads : registry.LeadsToFile get root file name) {files made : FileSystem}
    {result : Except IoError Unit}
    (created : files.createDirAll (Download.folder (Path.join base name)) = (result, made))
    (changed : made.node? place ≠ files.node? place) :
    registry.Confined get root base files made place := by
  have whole : (files.createDirAll (Download.folder (Path.join base name))).2 = made :=
    congrArg Prod.snd created
  rw [← whole] at changed
  obtain ⟨above, ancestor, before, now, path, member, located⟩ :=
    FileSystem.exists_ancestor_of_createDirAll changed
  rw [List.mem_singleton.mp member] at located
  rw [Download.folder] at whole
  rw [whole] at now located
  exact .folder leads ancestor before now located

theorem confined_of_write {file : Url} {name : String}
    (leads : registry.LeadsToFile get root file name) {files after : FileSystem} {bytes : Bytes}
    {result : Except Fault Unit} (wrote : files.write (Path.join base name) bytes = (result, after))
    (changed : after.node? place ≠ files.node? place) :
    registry.Confined get root base files after place := by
  have put {target : FileSystem.Target} (located : files.locate (Path.join base name) = .ok target)
      (writable : target.isWritable = true) (now : Bytes)
      (changed : (files.asked.put target.place (.file now)).node? place ≠ files.node? place) :
      registry.Confined get root base files (files.asked.put target.place (.file now)) place := by
    have grows := target.grows_put located writable now
    obtain ⟨folder, toFolder, below⟩ := FileSystem.exists_folder_of_locate leads.isPlain located
    obtain rfl : place = target.place := by
      by_contra differs
      exact changed (FileSystem.node?_put_of_ne differs files.asked _)
    have some : target.place ≠ [] := by
      rw [below]
      exact List.append_ne_nil_of_right_ne_nil _ (List.cons_ne_nil _ _)
    exact .file leads (grows.origin base ▸ grows.leads_dir toFolder) below
      (FileSystem.node?_put_self some files.asked _)
  cases FileSystem.wrote_write wrote with
  | nowhere | refused => exact absurd rfl changed
  | broken _ located writable => exact put located writable _ changed
  | whole located writable => exact put located writable _ changed

section

variable {settings : DownloadSettings} (unnamed : settings.filename = none)

include unnamed

theorem confined_of_handling {file : Url}
    (leads : registry.LeadsToFile get root file (DownloadSettings.segmentOf file))
    {files after : FileSystem} {bits : ExitStatus}
    (handling : Download.Handling (registry.siteBy get) settings file files after bits)
    (changed : after.node? place ≠ files.node? place) :
    registry.Confined get root settings.baseDirectory files after place := by
  cases handling with
  | skipped => exact absurd rfl changed
  | unfetched => exact absurd rfl changed
  | fetched _ _ storing =>
    rw [Download.destination_of_unnamed unnamed] at storing
    cases storing with
    | noFolder created => exact confined_of_createDirAll leads created changed
    | @unwritten made _ _ created wrote | @stored made _ created wrote =>
      have grows := files.grows_createDirAll
        (Download.folder (Path.join settings.baseDirectory (DownloadSettings.segmentOf file)))
      rw [created] at grows
      by_cases same : made.node? place = files.node? place
      · rw [← same] at changed
        exact (confined_of_write leads wrote changed).mono grows (.refl after)
      · exact (confined_of_createDirAll leads created same).mono (.refl files)
          (FileSystem.wrote_write wrote).grows

theorem confined_of_step (builtIn : registry.BuiltIn) (served : root.Served)
    {stage middle : Download.Stage} {deeds : List Download.Deed}
    (step : Download.Step (registry.siteBy get) settings root stage deeds middle)
    (inside : stage.FilesInside (registry.siteBy get) root)
    (changed : middle.state.files.node? place ≠ stage.state.files.node? place) :
    registry.Confined get root settings.baseDirectory stage.state.files middle.state.files place := by
  cases step with
  | @hand seen queue url entries state after aborted handled =>
    obtain ⟨_, handling, _⟩ :=
      Download.exists_handling (registry.siteBy get) settings root url state
    rw [handled] at handling
    have reaches := inside url List.mem_cons_self
    exact confined_of_handling unnamed (builtIn.leadsToFile served reaches) handling changed
  | _ => exact absurd rfl changed

theorem confined_of_passes (builtIn : registry.BuiltIn) (served : root.Served)
    {start last : Download.Stage} {passed : List Download.Stage}
    (passes : Download.Passes (registry.siteBy get) settings root start passed last)
    (inside : ∀ stage ∈ passed, stage.FilesInside (registry.siteBy get) root) :
    start.state.files.Grows last.state.files ∧
      (last.state.files.node? place ≠ start.state.files.node? place →
        registry.Confined get root settings.baseDirectory start.state.files last.state.files
          place) := by
  induction passes with
  | here => exact ⟨.refl _, absurd rfl⟩
  | @next passed stage middle deeds _ step ih =>
    obtain ⟨grows, confined⟩ := ih fun stage member => inside stage (List.mem_append_left _ member)
    refine ⟨grows.trans step.grows, fun changed => ?_⟩
    have here := inside stage (List.mem_append_right _ (List.mem_singleton_self stage))
    by_cases same : stage.state.files.node? place = start.state.files.node? place
    · rw [← same] at changed
      exact (confined_of_step unnamed builtIn served step here changed).mono grows (.refl _)
    · exact (confined same).mono (.refl _) step.grows

/-- The path of an act on the file system is that of a file in the base directory, or its folder. -/
theorem exists_file_of_mem_acts (builtIn : registry.BuiltIn) (served : root.Served)
    {stage : Download.Stage} (inside : stage.FilesInside (registry.siteBy get) root)
    {act : Download.Act} (member : act ∈ stage.acts (registry.siteBy get) settings)
    (notAsked : ∀ url, act ≠ .ask url) :
    ∃ file name, registry.LeadsToFile get root file name ∧
      ((∃ failure,
          act = .makeDirs (Download.folder (Path.join settings.baseDirectory name)) failure) ∨
        ∃ bytes failure, act = .write (Path.join settings.baseDirectory name) bytes failure) := by
  rcases Download.Stage.mem_acts member with ⟨url, asked⟩ | ⟨file, state, at_, among⟩
  · exact absurd asked (notAsked url)
  · rcases Download.mem_fileActs among with ⟨url, asked⟩ | ⟨bytes, _, _, stored⟩
    · exact absurd asked (notAsked url)
    · rw [Download.destination_of_unnamed unnamed] at stored
      refine ⟨file, _, builtIn.leadsToFile served (at_.reachesFile inside), ?_⟩
      rcases Download.mem_storeActs stored with made | ⟨failure, wrote⟩
      · exact Or.inl made
      · exact Or.inr ⟨bytes, failure, wrote⟩

end

/-- A download that leaves files their names writes nothing but direct children of the base
directory, and creates no directories but those above them. This holds at each moment of the run,
and whatever the playlists say. -/
theorem download_stays_in_folder (registry : Registry) (builtIn : registry.BuiltIn)
    (get : Url → Exchange) (settings : DownloadSettings) (target : String) (root : Url)
    (handler : Handler) (found : registry.findFor? target = some (root, handler))
    (unnamed : settings.filename = none) (files : FileSystem) :
    let site := registry.siteBy get
    let base := settings.baseDirectory
    (∀ finite : site.FinitelyReaches root, ∃ passed last,
      Download.Passes site settings root (.start root files) passed last ∧ last.Ended ∧
      Download.run site settings root finite files = ⟨last.outcome, last.state⟩) ∧
    ∀ passed stage, Download.Passes site settings root (.start root files) passed stage →
      let acts := passed.flatMap (Download.Stage.acts site settings)
      stage.state.files = acts.foldl Download.Act.perform files ∧
      (∀ path bytes failure, .write path bytes failure ∈ acts →
        ∃ file name, registry.LeadsToFile get root file name ∧ path = Path.join base name) ∧
      (∀ path failure, .makeDirs path failure ∈ acts →
        ∃ file name, registry.LeadsToFile get root file name ∧
          path = Download.folder (Path.join base name)) ∧
      ∀ place, stage.state.files.node? place ≠ files.node? place →
        registry.Confined get root base files stage.state.files place := by
  intro site base
  have served := builtIn.served_of_findFor found
  refine ⟨fun finite => Download.exists_passes_run finite files, ?_⟩
  intro passed stage passes acts
  have inside : ∀ stage ∈ passed, stage.FilesInside site root := passes.filesInside.2
  refine ⟨passes.performs.1, ?_, ?_, ?_⟩
  · intro path bytes failure member
    obtain ⟨turn, among, here⟩ := List.mem_flatMap.mp member
    obtain ⟨file, name, leads, ⟨_, made⟩ | ⟨_, _, wrote⟩⟩ :=
      exists_file_of_mem_acts unnamed builtIn served (inside turn among) here fun _ => by simp
    · cases made
    · cases wrote
      exact ⟨file, name, leads, rfl⟩
  · intro path failure member
    obtain ⟨turn, among, here⟩ := List.mem_flatMap.mp member
    obtain ⟨file, name, leads, ⟨_, made⟩ | ⟨_, _, wrote⟩⟩ :=
      exists_file_of_mem_acts unnamed builtIn served (inside turn among) here fun _ => by simp
    · cases made
      exact ⟨file, name, leads, rfl⟩
    · cases wrote
  · intro place changed
    exact (confined_of_passes unnamed builtIn served passes inside).2 changed

/-- A file of one host, in a folder there. -/
def climbingFile : Url where
  scheme := "http"
  authority := some { host := .name "h" }
  route := .segments ["etc", "passwd.txt"]

/-- A playlist that climbs out of its folder. -/
def climbingWeb : Web where
  pages :=
    [(cyclicUrl "a.m3u", { body := Text.Utf8.encode "../../etc/passwd.txt\n".toList }),
      (climbingFile, { body := Text.Utf8.encode "P".toList })]

/-- The turns that store the file of the playlist. -/
theorem exists_passes_climbing :
    ∃ passed stage, Download.Passes (standard.siteBy climbingWeb.get) {} (cyclicUrl "a.m3u")
        (.start (cyclicUrl "a.m3u") {}) passed stage ∧ stage.Ended ∧
      .write "./passwd.txt" (Text.Utf8.encode "P".toList) none ∈
        passed.flatMap (Download.Stage.acts (standard.siteBy climbingWeb.get) {}) := by
  let site := standard.siteBy climbingWeb.get
  let root := cyclicUrl "a.m3u"
  have names : site.entries root = [.queue climbingFile] := by decide +kernel
  have itself : site.entries climbingFile = [.file climbingFile] := by decide +kernel
  let resolved (state : Download.State) (url : Url) : Download.State :=
    { state with trail := state.trail.resolved url (site.expand url) }
  let first : Download.State := resolved { files := {} } root
  let second : Download.State := resolved first climbingFile
  let after := Download.file site {} root climbingFile second
  have resolve : Download.Step site {} root (.start root {}) [.resolve root]
      ⟨[root], [], [.queue climbingFile], first, false⟩ := names ▸ .resolve
  have discover : Download.Step site {} root ⟨[root], [], [.queue climbingFile], first, false⟩ []
      ⟨[climbingFile, root], [climbingFile], [], first, false⟩ :=
    .discover (by decide +kernel) (by decide +kernel)
  have resolveFile : Download.Step site {} root
      ⟨[climbingFile, root], [climbingFile], [], first, false⟩ [.resolve climbingFile]
      ⟨[climbingFile, root], [], [.file climbingFile], second, false⟩ := itself ▸ .resolve
  have hand : Download.Step site {} root
      ⟨[climbingFile, root], [], [.file climbingFile], second, false⟩ [.hand climbingFile]
      ⟨[climbingFile, root], [], [], after.2, after.1⟩ := .hand rfl
  refine ⟨_, _, .next (.next (.next (.next .here resolve) discover) resolveFile) hand,
    Or.inr ⟨rfl, rfl⟩, List.mem_flatMap.mpr ⟨_, List.mem_append_right _ List.mem_cons_self, ?_⟩⟩
  decide +kernel

theorem download_stays_in_folder_climbing :
    standard.BuiltIn ∧
    standard.findFor? "http://h/a.m3u" = some (cyclicUrl "a.m3u", .playlist) ∧
    ({} : DownloadSettings).filename = none ∧
    ∃ passed stage, Download.Passes (standard.siteBy climbingWeb.get) {} (cyclicUrl "a.m3u")
        (.start (cyclicUrl "a.m3u") {}) passed stage ∧ stage.Ended ∧
      .write "./passwd.txt" (Text.Utf8.encode "P".toList) none ∈
        passed.flatMap (Download.Stage.acts (standard.siteBy climbingWeb.get) {}) ∧
      (∃ file name, standard.LeadsToFile climbingWeb.get (cyclicUrl "a.m3u") file name ∧
        "./passwd.txt" = Path.join "." name) ∧
      ∀ place, stage.state.files.node? place ≠ ({} : FileSystem).node? place →
        standard.Confined climbingWeb.get (cyclicUrl "a.m3u") "." {} stage.state.files place := by
  have found : standard.findFor? "http://h/a.m3u" = some (cyclicUrl "a.m3u", .playlist) := by
    decide +kernel
  obtain ⟨passed, stage, passes, ended, wrote⟩ := exists_passes_climbing
  obtain ⟨_, always⟩ := download_stays_in_folder standard standard_builtIn climbingWeb.get {}
    "http://h/a.m3u" (cyclicUrl "a.m3u") .playlist found rfl {}
  obtain ⟨_, writes, _, changes⟩ := always passed stage passes
  exact ⟨standard_builtIn, found, rfl, passed, stage, passes, ended, wrote, writes _ _ _ wrote,
    changes⟩

end Registry
end BatchFetch
