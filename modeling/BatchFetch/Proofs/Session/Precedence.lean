import BatchFetch.Job.Kind
import BatchFetch.Proofs.CommandLine.Shortcuts
import BatchFetch.Proofs.Job.Stretches
import BatchFetch.Proofs.Store.Levels

namespace BatchFetch

namespace Arguments

/-- The command line without the options that are settings under another name. -/
def withoutShortcuts (arguments : Arguments) : Arguments :=
  { arguments with destination := none, filename := none, abort := none, terminate := none }

theorem get?_overridden {arguments : Arguments} (plain : arguments.settings = []) (store : Store)
    (sectionName key : String) :
    (store.setAll arguments.overrides).get? sectionName key =
      (if sectionName = globalSection then arguments.shortcut? key else none).or
        (store.get? sectionName key) := by
  rw [Store.get?_setAll, last?_overrides, plain, Setting.last?_nil, Option.none_or]

/-- The limit that the command line gives is written as a text that is read as this limit. -/
theorem exists_limit {arguments : Arguments} {n : Nat}
    (single : arguments.abort = none ∨ arguments.terminate = none)
    (asked : arguments.abort = some n ∨ arguments.terminate = some n) :
    ∃ text, arguments.shortcut? "skip" = some (.str text) ∧ WritesLimit n text := by
  rcases asked with abort | terminate
  · have other : arguments.terminate = none := single.resolve_left (by rw [abort]; exact nofun)
    refine ⟨s!"abort:{n}", ?_, Or.inl (List.mem_singleton_self _)⟩
    simp [shortcut?, abort, other]
  · refine ⟨s!"terminate:{n}", ?_, Or.inr (List.mem_singleton_self _)⟩
    simp [shortcut?, terminate]

end Arguments

namespace DownloadSettings

theorem globalSection_not_mem_levels (handler : String) :
    globalSection ∉ Store.levels (handlerSection handler) := by
  rw [Store.mem_levels, handlerSection, String.toList_append]
  intro isLevel
  exact absurd (List.cons_prefix_cons.mp isLevel.front).1 (by decide)

theorem handlerSection_ne_global (handler : String) : handlerSection handler ≠ globalSection :=
  fun same => globalSection_not_mem_levels handler
    (Store.mem_levels.mpr (Or.inl (congrArg String.toList same)))

theorem handlerSection_ne_empty (handler : String) : handlerSection handler ≠ "" := by
  rw [handlerSection, ne_eq, String.append_eq_empty_iff]
  exact fun both => absurd both.1 (by decide)

/-- What goes before the command line: a value in the sections of the handler, or one that a directive
has given globally since. -/
def ahead? (configured : Store) (directives : List Setting) (handler key : String) : Option Json :=
  ((configured.setAll directives).atLevels? (handlerSection handler) key).or
    (Setting.last? directives globalSection key)

/-- What a download finds when options of the command line are written over a configuration, and
directives over both: the options hide what is global, and are hidden by what goes before them. -/
theorem interpolate?_overridden {arguments : Arguments} (plain : arguments.settings = [])
    (configured : Store) (directives : List Setting) (handler key : String) :
    ((configured.setAll arguments.overrides).setAll directives).interpolate?
        (handlerSection handler) key =
      (ahead? configured directives handler key).or
        ((arguments.shortcut? key).or (configured.getGlobal? key)) := by
  have within : ((configured.setAll arguments.overrides).setAll directives).atLevels?
      (handlerSection handler) key =
        (configured.setAll directives).atLevels? (handlerSection handler) key := by
    refine congrArg List.getLast? (List.filterMap_congr fun level member => ?_)
    have other : level ≠ globalSection := fun same =>
      globalSection_not_mem_levels handler (same ▸ member)
    rw [Store.get?_setAll, Arguments.get?_overridden plain, if_neg other, Option.none_or,
      Store.get?_setAll]
  rw [Store.interpolate?_of_section _ (handlerSection_ne_empty handler)
    (handlerSection_ne_global handler), within, Store.getGlobal?, Store.get?_setAll,
    Arguments.get?_overridden plain, if_pos rfl, ahead?, Option.or_assoc, Store.getGlobal?]

/-- A value of the command line counts unless another one goes before it. -/
theorem read_overridden {α : Type} (read : Option Json → α) {arguments : Arguments}
    (plain : arguments.settings = []) {key : String} {value : Json}
    (asked : arguments.shortcut? key = some value) (configured : Store) (directives : List Setting)
    (handler : String) :
    read (((configured.setAll arguments.overrides).setAll directives).interpolate?
        (handlerSection handler) key) =
      (ahead? configured directives handler key).elim (read (some value))
        fun first => read (some first) := by
  rw [interpolate?_overridden plain, asked, Option.some_or]
  cases ahead? configured directives handler key <;> rfl

end DownloadSettings

/-- A download is made with the settings that its handler finds in the store. -/
theorem JobKind.create_download {registry : Registry} {target : String} {url : Url}
    {handler : Handler} (found : registry.findFor? target = some (url, handler))
    (get : Url → Exchange) (store : Store) (world : Option World) :
    (download.factory registry get).create target store world =
      (.ok (.ofPartial
          (downloading registry get url (DownloadSettings.ofStore store handler.name).1)),
        (DownloadSettings.ofStore store handler.name).2, world) := by
  simp only [factory, found, job]

namespace Session
open DownloadSettings (ahead? directoryOf filenameOf)

/-- A configuration with the command line is one without it and the options written over that. -/
theorem loadStore_withoutShortcuts {readers : DocumentReaders} {arguments : Arguments}
    (plain : arguments.settings = []) {files : FileSystem} {configHome : String} {store : Store}
    (loaded : (loadStore arguments files configHome readers).1 = .ok store) :
    ∃ configured, (loadStore arguments.withoutShortcuts files configHome readers).1 = .ok configured ∧
      store = configured.setAll arguments.overrides := by
  obtain ⟨named, now, rfl⟩ := ok_of_map loaded
  have none : arguments.withoutShortcuts.overrides = [] := plain
  have nowToo : loadNamed readers files
      (defaults arguments.withoutShortcuts files configHome readers).store
      arguments.withoutShortcuts.configFiles = .ok named := now
  refine ⟨named, ?_, rfl⟩
  rw [loadStore, nowToo, none]
  rfl

/-- The job of a target downloads with the directory, the template and the limit that the command line
gives. Each of them gives way to a value that the files have in a section of the handler, or that a
directive has written before the target. -/
theorem create_by_precedence {words : List String} {arguments : Arguments}
    (parsed : CommandLine.parse words = .ok arguments) (plain : arguments.settings = [])
    {readers : DocumentReaders} {files : FileSystem} {configHome : String} {store : Store}
    (loaded : (loadStore arguments files configHome readers).1 = .ok store)
    (directives : List Setting) {registry : Registry} {target : String} {url : Url}
    {handler : Handler} (found : registry.findFor? target = some (url, handler))
    (get : Url → Exchange) (world : Option World) :
    ∃ configured settings events,
      (loadStore arguments.withoutShortcuts files configHome readers).1 = .ok configured ∧
      (JobKind.download.factory registry get).create target (store.setAll directives) world =
        (.ok (.ofPartial (JobKind.downloading registry get url settings)), events, world) ∧
      (∀ dir, arguments.destination = some dir →
        settings.baseDirectory = (ahead? configured directives handler.name "base-directory").elim
          dir fun first => (directoryOf (some first)).1) ∧
      (∀ text, arguments.filename = some text →
        settings.filename = (ahead? configured directives handler.name "filename").elim
          (some (Arguments.filenameTemplate text)) fun first => (filenameOf (some first)).1) ∧
      ∀ n, arguments.abort = some n ∨ arguments.terminate = some n →
        settings.skip = (ahead? configured directives handler.name "skip").elim
          (.abort (max n 1)) fun first => (SkipMode.ofValue (some first)).1 := by
  obtain ⟨small, single⟩ := CommandLine.limits_of_parse parsed
  obtain ⟨configured, loadedAlone, rfl⟩ := loadStore_withoutShortcuts plain loaded
  refine ⟨configured, _, _, loadedAlone, JobKind.create_download found get _ world, ?_, ?_, ?_⟩
  · intro dir asked
    have written : arguments.shortcut? "base-directory" = some (.str dir) := by
      rw [Arguments.shortcut?, asked]
      rfl
    exact DownloadSettings.read_overridden (fun value => (directoryOf value).1) plain written
      configured directives _
  · intro text asked
    have written : arguments.shortcut? "filename" =
        some (.str (Arguments.filenameTemplate text)) := by
      rw [Arguments.shortcut?, asked]
      rfl
    exact DownloadSettings.read_overridden (fun value => (filenameOf value).1) plain written
      configured directives _
  · intro n asked
    obtain ⟨text, written, writes⟩ := Arguments.exists_limit single asked
    rw [← writes.ofText (small n asked)]
    exact DownloadSettings.read_overridden (fun value => (SkipMode.ofValue value).1) plain written
      configured directives _

/-- The template of the file is nested and goes before the command line; its limit is global and does
not. -/
theorem create_by_precedence_mixed :
    let words := ["-d", "chosen", "-f", "/O", "--abort", "3", "--ignore-config", "-c", "c.json",
      "http://h/a.jpg"]
    let text := "\x7b\"skip\":false,\"extractor\":\x7b\"filename\":\"x\"\x7d\x7d"
    let files : FileSystem := { nodes := [(["c.json"], .file (Text.Utf8.encode text.toList))] }
    ∃ arguments store url, CommandLine.parse words = .ok arguments ∧ arguments.settings = [] ∧
      (loadStore arguments files "/etc").1 = .ok store ∧
      Registry.standard.findFor? "http://h/a.jpg" = some (url, .direct) ∧
      let get := ({} : Web).get
      ∃ settings events, (JobKind.download.factory .standard get).create "http://h/a.jpg"
          (store.setAll [⟨"output", "mode", .null⟩]) (some { files }) =
            (.ok (.ofPartial (JobKind.downloading .standard get url settings)), events,
              some { files }) ∧
        settings = { baseDirectory := "chosen", filename := some "x", skip := .abort 3 } := by
  intro words text files
  let arguments : Arguments :=
    { urls := ["http://h/a.jpg"], destination := some "chosen", filename := some "/O",
      abort := some 3, configFiles := ["c.json"], ignoreConfig := true }
  let loaded : List Setting := [⟨globalSection, "skip", .bool false⟩, ⟨"extractor", "filename", .str "x"⟩]
  let url : Url :=
    { scheme := "http", authority := some { host := .name "h" }, route := .segments ["a.jpg"] }
  have parsed : CommandLine.parse words = .ok arguments := by decide +kernel
  have load : (loadStore arguments files "/etc").1 =
      .ok ((Store.empty.setAll loaded).setAll arguments.overrides) := by decide +kernel
  have loadAlone : (loadStore arguments.withoutShortcuts files "/etc").1 =
      .ok (Store.empty.setAll loaded) := by decide +kernel
  have found : Registry.standard.findFor? "http://h/a.jpg" = some (url, .direct) := by
    decide +kernel
  obtain ⟨configured, settings, events, same, created, directory, filename, skip⟩ :=
    create_by_precedence parsed rfl load [⟨"output", "mode", .null⟩] found ({} : Web).get
      (some { files })
  cases same.symm.trans loadAlone
  refine ⟨arguments, _, url, parsed, rfl, load, found, settings, events, created, ?_⟩
  obtain ⟨_, _, _⟩ := settings
  rw [DownloadSettings.mk.injEq]
  exact ⟨(directory "chosen" rfl).trans (by decide +kernel),
    (filename "/O" rfl).trans (by decide +kernel),
    (skip 3 (Or.inl rfl)).trans (by decide +kernel)⟩

/-- A nested directory in a file is used in place of the one that the command line gives. -/
theorem create_not_by_command_line :
    let words := ["-d", "chosen", "--ignore-config", "-c", "c.json", "http://h/a.jpg"]
    let text := "\x7b\"extractor\":\x7b\"base-directory\":\"configured\"\x7d\x7d"
    let files : FileSystem := { nodes := [(["c.json"], .file (Text.Utf8.encode text.toList))] }
    ∃ arguments store url, CommandLine.parse words = .ok arguments ∧ arguments.settings = [] ∧
      arguments.destination = some "chosen" ∧ (loadStore arguments files "/etc").1 = .ok store ∧
      Registry.standard.findFor? "http://h/a.jpg" = some (url, .direct) ∧
      let get := ({} : Web).get
      ∃ settings events, (JobKind.download.factory .standard get).create "http://h/a.jpg" store
          (some { files }) =
            (.ok (.ofPartial (JobKind.downloading .standard get url settings)), events,
              some { files }) ∧
        settings.baseDirectory = "configured" ∧ settings.baseDirectory ≠ "chosen" := by
  intro words text files
  let arguments : Arguments :=
    { urls := ["http://h/a.jpg"], destination := some "chosen", configFiles := ["c.json"],
      ignoreConfig := true }
  let store := Store.empty.setAll
    [⟨"extractor", "base-directory", .str "configured"⟩, ⟨globalSection, "base-directory", .str "chosen"⟩]
  let url : Url :=
    { scheme := "http", authority := some { host := .name "h" }, route := .segments ["a.jpg"] }
  have found : Registry.standard.findFor? "http://h/a.jpg" = some (url, .direct) := by
    decide +kernel
  exact ⟨arguments, store, url, by decide +kernel, rfl, rfl, by decide +kernel, found, _, _,
    JobKind.create_download found _ store (some { files }), by decide +kernel, by decide +kernel⟩

end Session
end BatchFetch
