import BatchFetch.Proofs.Results
import BatchFetch.Proofs.Store.InPlace
import BatchFetch.Session.Configuration

namespace BatchFetch

/-- What the last of some layers about an option gives to it; within a layer, its last setting
counts. -/
def Setting.lastOf? (layers : List (List Setting)) (sectionName key : String) : Option Json :=
  layers.reverse.findSome? fun layer => last? layer sectionName key

theorem Setting.lastOf?_eq (layers : List (List Setting)) (sectionName key : String) :
    lastOf? layers sectionName key = last? layers.flatten sectionName key := by
  induction layers with
  | nil => rfl
  | cons layer rest ih =>
    rw [lastOf?] at ih
    rw [lastOf?, List.reverse_cons, List.findSome?_append, ih, List.flatten_cons, last?_append,
      List.findSome?_singleton]

namespace Store

/-- The ways in which a configuration file cannot be loaded. -/
inductive Broken (readers : DocumentReaders) (files : FileSystem) (path : String) : Prop
  | missing : files.readText path = .error .notFound → Broken readers files path
  | unreadable {cause : IoError} : files.readText path = .error cause → cause ≠ .notFound →
      Broken readers files path
  | unsupported {extension : String} : Path.extension? path = some extension →
      Text.asciiLower extension ∉ ["json", "yaml", "yml", "toml"] → Broken readers files path
  | malformed {format : ConfigFormat} {text : String} {e : ConfigError} :
      ConfigFormat.ofPath path = .ok format → files.readText path = .ok text →
      format.parse text readers = .error e → Broken readers files path
  | badRoot {format : ConfigFormat} {text : String} {document : Json} :
      ConfigFormat.ofPath path = .ok format → files.readText path = .ok text →
      format.parse text readers = .ok document → (∀ members, document ≠ .obj members) →
      document ≠ .null → Broken readers files path

/-- The settings of the document in a file, if the file can be loaded. -/
def settingsOf? (readers : DocumentReaders) (files : FileSystem) (path : String) :
    Option (List Setting) :=
  (ConfigFormat.ofPath path).toOption.bind fun format =>
    (files.readText path).toOption.bind fun text =>
      (format.parse text readers).toOption.bind Json.settings?

/-- What a file adds to a configuration. -/
def fileLayer (readers : DocumentReaders) (files : FileSystem) (path : String) : List Setting :=
  (settingsOf? readers files path).getD []

theorem ofPath_eq_error_iff {path : String} :
    (∃ e, ConfigFormat.ofPath path = .error e) ↔ ∃ extension, Path.extension? path = some extension ∧
      Text.asciiLower extension ∉ ["json", "yaml", "yml", "toml"] := by
  unfold ConfigFormat.ofPath
  cases Path.extension? path with
  | none => simp
  | some extension =>
    simp only [Option.map_some, Option.some.injEq, exists_eq_left']
    split <;> simp_all

theorem settings?_eq_none_iff {document : Json} :
    document.settings? = none ↔ (∀ members, document ≠ .obj members) ∧ document ≠ .null := by
  cases document <;> simp [Json.settings?]

theorem settingsOf?_eq_none_iff {readers : DocumentReaders} {files : FileSystem} {path : String} :
    settingsOf? readers files path = none ↔ Broken readers files path := by
  constructor
  · intro none
    simp only [settingsOf?, Option.bind_eq_none_iff, toOption_eq_some_iff] at none
    cases known : ConfigFormat.ofPath path with
    | error e =>
      obtain ⟨extension, named, unknown⟩ := ofPath_eq_error_iff.mp ⟨e, known⟩
      exact .unsupported named unknown
    | ok format =>
      cases read : files.readText path with
      | error cause =>
        by_cases absent : cause = .notFound
        · exact .missing (absent ▸ read)
        · exact .unreadable read absent
      | ok text =>
        cases parsed : format.parse text readers with
        | error e => exact .malformed known read parsed
        | ok document =>
          obtain ⟨noMapping, notNull⟩ :=
            settings?_eq_none_iff.mp (none format known text read document parsed)
          exact .badRoot known read parsed noMapping notNull
  · intro broken
    rw [settingsOf?]
    cases broken with
    | missing failed | unreadable failed =>
      rw [failed]
      cases ConfigFormat.ofPath path <;> rfl
    | unsupported named unknown =>
      obtain ⟨e, failed⟩ := ofPath_eq_error_iff.mpr ⟨_, named, unknown⟩
      rw [failed]
      rfl
    | malformed known read rejected =>
      rw [known, read]
      simp only [rejected, Except.toOption, Option.bind_some, Option.bind_none]
    | badRoot known read parsed noMapping notNull =>
      rw [known, read]
      simp only [parsed, Except.toOption, Option.bind_some]
      exact settings?_eq_none_iff.mpr ⟨noMapping, notNull⟩

theorem loadDocument_toOption (store : Store) (document : Json) :
    (store.loadDocument document).toOption =
      document.settings?.map fun settings => (store.setAll settings, settings.length) := by
  rw [← store.mergeDocument_eq document, loadDocument]
  cases store.mergeDocument document <;> rfl

theorem loadText_toOption (store : Store) (text : String) (format : ConfigFormat)
    (readers : DocumentReaders) :
    (store.loadText text format readers).toOption =
      ((format.parse text readers).toOption.bind Json.settings?).map fun settings =>
        (store.setAll settings, settings.length) := by
  rw [loadText, toOption_bind, Option.map_bind]
  simp only [loadDocument_toOption]
  rfl

/-- A file is loaded by writing the settings of its document. -/
theorem loadFile_toOption (store : Store) (readers : DocumentReaders) (files : FileSystem)
    (path : String) :
    (store.loadFile files path readers).toOption =
      (settingsOf? readers files path).map fun settings =>
        (store.setAll settings, settings.length) := by
  have read : (readConfig files path).toOption = (files.readText path).toOption := by
    unfold readConfig
    split <;> simp_all [Except.toOption]
  unfold loadFile settingsOf?
  cases ConfigFormat.ofPath path with
  | error => rfl
  | ok format =>
    simp only [toOption_bind, read, loadText_toOption]
    exact Option.map_bind.symm

/-- The store and the answer of a load, by what the file adds. -/
theorem loadFile_eq_ok {store after : Store} {readers : DocumentReaders} {files : FileSystem}
    {path : String} {count : Nat} (loaded : store.loadFile files path readers = .ok (after, count)) :
    after = store.setAll (fileLayer readers files path) ∧
      count = (fileLayer readers files path).length := by
  have answered := store.loadFile_toOption readers files path
  rw [loaded] at answered
  obtain ⟨settings, found, same⟩ := Option.map_eq_some_iff.mp answered.symm
  cases same
  rw [fileLayer, found]
  exact ⟨rfl, rfl⟩

theorem loadFile_eq_error_iff (store : Store) {readers : DocumentReaders} {files : FileSystem}
    {path : String} :
    (∃ e, store.loadFile files path readers = .error e) ↔ Broken readers files path := by
  rw [← toOption_eq_none_iff, loadFile_toOption, Option.map_eq_none_iff, settingsOf?_eq_none_iff]

theorem Broken.fileLayer_eq_nil {readers : DocumentReaders} {files : FileSystem} {path : String}
    (broken : Broken readers files path) : fileLayer readers files path = [] := by
  rw [fileLayer, settingsOf?_eq_none_iff.mpr broken, Option.getD_none]

theorem broken_of_not_exists {readers : DocumentReaders} {files : FileSystem} {path : String}
    (absent : ¬files.pathExists path) : Broken readers files path := by
  have unread : ∃ cause, files.readText path = .error cause := by
    unfold FileSystem.pathExists at absent
    unfold FileSystem.readText FileSystem.read FileSystem.openRead
    cases located : files.locate path with
    | error cause => exact ⟨cause, rfl⟩
    | ok target =>
      cases target with
      | missing => exact ⟨.notFound, rfl⟩
      | dir | file => simp [located] at absent
  obtain ⟨cause, failed⟩ := unread
  by_cases notFound : cause = .notFound
  · exact .missing (notFound ▸ failed)
  · exact .unreadable failed notFound

/-- Loading a default file writes what the file adds, whether or not it can be loaded. -/
theorem loadDefault_store (readers : DocumentReaders) (files : FileSystem) (defaults : Defaults)
    (path : String) :
    (loadDefault readers files defaults path).store =
      defaults.store.setAll (fileLayer readers files path) := by
  unfold loadDefault
  by_cases present : files.pathExists path
  · rw [if_pos present]
    cases loaded : defaults.store.loadFile files path readers with
    | error e =>
      rw [((loadFile_eq_error_iff _).mp ⟨e, loaded⟩).fileLayer_eq_nil]
      rfl
    | ok answer => exact (loadFile_eq_ok loaded).1
  · rw [if_neg present, (broken_of_not_exists present).fileLayer_eq_nil]
    rfl

theorem loadDefaults_store (store : Store) (files : FileSystem) (configHome : String)
    (readers : DocumentReaders) :
    (store.loadDefaults files configHome readers).store =
      store.setAll ((defaultPaths configHome).flatMap (fileLayer readers files)) := by
  have every (paths : List String) (defaults : Defaults) :
      (paths.foldl (loadDefault readers files) defaults).store =
        defaults.store.setAll (paths.flatMap (fileLayer readers files)) := by
    induction paths generalizing defaults with
    | nil => rfl
    | cons path rest ih =>
      rw [List.foldl_cons, ih, loadDefault_store, List.flatMap_cons, setAll_append]
  exact every _ _

end Store

/-- The settings of the command line as layers: each option of its own is one. -/
def Arguments.layers (arguments : Arguments) : List (List Setting) :=
  [arguments.destination.toList.map (globalText "base-directory"),
    arguments.filename.toList.map fun text => globalText "filename" (filenameTemplate text),
    arguments.abort.toList.map fun n => globalText "skip" s!"abort:{n}",
    arguments.terminate.toList.map fun n => globalText "skip" s!"terminate:{n}"] ++
  arguments.settings.map ([·])

theorem Arguments.overrides_eq (arguments : Arguments) :
    arguments.overrides = arguments.layers.flatten := by
  have single {α : Type} (value : Option α) (f : α → Setting) :
      (value.map f).toList = value.toList.map f := by
    cases value <;> rfl
  simp only [overrides, layers, single, List.cons_append, List.nil_append, List.flatten_cons,
    List.append_assoc]
  rw [← List.flatMap_def, List.flatMap_singleton']

namespace Session
open Store (fileLayer Broken)

/-- The layers of a configuration, the one that wins last. -/
def layers (readers : DocumentReaders) (arguments : Arguments) (files : FileSystem)
    (configHome : String) : List (List Setting) :=
  (if arguments.ignoreConfig then []
    else (Store.defaultPaths configHome).map (fileLayer readers files)) ++
  arguments.configFiles.map (fileLayer readers files) ++ arguments.layers

theorem loadNamed_eq_error_iff (store : Store) {readers : DocumentReaders} {files : FileSystem}
    {paths : List String} :
    (∃ e, loadNamed readers files store paths = .error e) ↔
      ∃ path ∈ paths, Broken readers files path := by
  induction paths generalizing store with
  | nil => simp [loadNamed]
  | cons path rest ih =>
    simp only [loadNamed, List.exists_mem_cons_iff]
    cases loaded : store.loadFile files path readers with
    | error e => simp [(Store.loadFile_eq_error_iff store).mp ⟨e, loaded⟩]
    | ok answer =>
      have sound : ¬Broken readers files path := by
        rw [← Store.loadFile_eq_error_iff store, loaded]
        rintro ⟨e, failed⟩
        cases failed
      simpa only [sound, false_or] using ih answer.1

theorem loadNamed_eq_ok {readers : DocumentReaders} {files : FileSystem} {store after : Store}
    {paths : List String} (loaded : loadNamed readers files store paths = .ok after) :
    after = store.setAll (paths.flatMap (fileLayer readers files)) := by
  induction paths generalizing store with
  | nil => exact (Except.ok.inj loaded).symm
  | cons path rest ih =>
    rw [loadNamed] at loaded
    split at loaded
    · rename_i next count now
      rw [ih loaded, (Store.loadFile_eq_ok now).1, List.flatMap_cons, Store.setAll_append]
    · cases loaded

theorem defaults_store (readers : DocumentReaders) (arguments : Arguments) (files : FileSystem)
    (configHome : String) :
    (defaults arguments files configHome readers).store =
      Store.empty.setAll (if arguments.ignoreConfig then []
        else (Store.defaultPaths configHome).map (fileLayer readers files)).flatten := by
  unfold defaults
  split
  · rfl
  · rw [Store.loadDefaults_store, List.flatMap_def]

theorem loadStore_eq_ok {readers : DocumentReaders} {arguments : Arguments} {files : FileSystem}
    {configHome : String} {store : Store}
    (loaded : (loadStore arguments files configHome readers).1 = .ok store) :
    store = Store.empty.setAll (layers readers arguments files configHome).flatten := by
  obtain ⟨named, now, overridden⟩ := ok_of_map loaded
  rw [← overridden, loadNamed_eq_ok now, defaults_store, Arguments.overrides_eq, layers,
    List.flatten_append, List.flatten_append, Store.setAll_append, Store.setAll_append,
    List.flatMap_def]

/-- Loading a configuration fails for a broken file named on the command line and for nothing else.
Otherwise every option has the value of the last layer about it. A broken file adds nothing as a
default file, and loading it in place leaves the store as it was. -/
theorem loadStore_by_layers (readers : DocumentReaders) (arguments : Arguments) (files : FileSystem)
    (configHome : String) :
    ((∃ e, (loadStore arguments files configHome readers).1 = .error e) ↔
      ∃ path ∈ arguments.configFiles, Broken readers files path) ∧
    (∀ store, (loadStore arguments files configHome readers).1 = .ok store →
      ∀ sectionName key, store.get? sectionName key =
        Setting.lastOf? (layers readers arguments files configHome) sectionName key) ∧
    (∀ path, Broken readers files path →
      fileLayer readers files path = [] ∧
      ∀ store, ∃ e, (Store.writeFile files path readers).on store = (.error e, store)) ∧
    (∀ path, ¬Broken readers files path →
      ∀ store, (Store.writeFile files path readers).on store =
        (.ok (fileLayer readers files path).length, store.setAll (fileLayer readers files path))) ∧
    ∀ text format store after e,
      (Store.writeText text format readers).on store = (.error e, after) →
        after = store ∧ store.loadText text format readers = .error e := by
  refine ⟨?_, ?_, ?_, ?_, ?_⟩
  · rw [← loadNamed_eq_error_iff (defaults arguments files configHome readers).store, loadStore]
    cases loadNamed readers files (defaults arguments files configHome readers).store
      arguments.configFiles <;> simp [Except.map]
  · intro store loaded sectionName key
    rw [loadStore_eq_ok loaded, Store.get?_setAll, Setting.lastOf?_eq]
    exact Option.or_none
  · intro path broken
    refine ⟨broken.fileLayer_eq_nil, fun store => ?_⟩
    obtain ⟨e, failed⟩ := (Store.loadFile_eq_error_iff store).mpr broken
    exact ⟨e, by rw [Store.writeFile_on, failed]; rfl⟩
  · intro path sound store
    rw [Store.writeFile_on]
    cases loaded : store.loadFile files path readers with
    | error e => exact absurd ((Store.loadFile_eq_error_iff store).mp ⟨e, loaded⟩) sound
    | ok answer =>
      obtain ⟨after, count⟩ := Store.loadFile_eq_ok loaded
      rw [← after, ← count]
      rfl
  · intro text format store after e failed
    rw [Store.writeText_on] at failed
    cases loaded : store.loadText text format readers with
    | ok answer =>
      rw [loaded] at failed
      cases failed
    | error cause =>
      rw [loaded] at failed
      cases failed
      exact ⟨rfl, rfl⟩

/-- A default file that is no mapping, and one that is; the latter is overlaid by the command line. -/
example :
    let readers : DocumentReaders :=
      { yaml := fun _ => .ok (.obj [("output", .obj [("progress", .bool true)]), ("skip", .null)])
        toml := fun _ => .error "expected a key" }
    let files : FileSystem :=
      { nodes := [(["etc"], .dir), (["etc", "haul"], .dir),
          (["etc", "haul", "config.json"], .file (Text.Utf8.encode "[1]".toList)),
          (["etc", "haul", "config.yaml"], .file [])] }
    let arguments : Arguments := { abort := some 3, settings := [⟨"output", "mode", .str "pipe"⟩] }
    (loadStore arguments files "/etc" readers).1 =
      .ok (Store.empty.setAll [⟨"output", "progress", .bool true⟩, ⟨"output", "mode", .str "pipe"⟩,
        ⟨globalSection, "skip", .str "abort:3"⟩]) := by decide +kernel

end Session
end BatchFetch
