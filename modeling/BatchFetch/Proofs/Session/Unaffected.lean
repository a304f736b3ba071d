import BatchFetch.Proofs.Dispatch.Options
import BatchFetch.Proofs.Dispatch.Told
import BatchFetch.Proofs.Session.Layers
import BatchFetch.Session.Run

namespace BatchFetch

/-- What a session comes to, apart from what is logged. -/
def Finished.ending (finished : Finished) : Except SessionError ExitStatus × World :=
  (finished.result, finished.world)

namespace Session

/-- Progress lines do not disturb the batch of a session. -/
theorem dispatch_alike {σ : Type} (shop : Workshop σ) (template : Option String) (items : List Item)
    (store : Store) (state : σ) :
    Dispatched.Alike (fun shown bare => shown = bare) (dispatch shop template items store state)
      (shop.dispatch items store state) := by
  cases template with
  | none => exact ⟨rfl, rfl, rfl⟩
  | some template => exact shop.dispatchReported_alike items template {} store state

/-- Two sessions that are to do the same: they have the same targets, write what no handler accepts
to the same place, and find the same things around them. -/
structure SameTask (arguments other : Arguments) (around elsewhere : Surroundings) : Prop where
  urls : arguments.urls = other.urls
  inputFiles : arguments.inputFiles = other.inputFiles
  getUrls : arguments.getUrls = other.getUrls
  writeUnsupported : arguments.writeUnsupported = other.writeUnsupported
  files : around.files = elsewhere.files
  stdin : around.stdin = elsewhere.stdin
  stdout : around.stdout = elsewhere.stdout
  get : around.get = elsewhere.get
  registry : around.registry = elsewhere.registry

/-- Two configurations that have the same values at some places, or cannot be loaded for the same
reason. -/
inductive LoadedAlike (places : List (String × String)) :
    Except ErrorChain Store → Except ErrorChain Store → Prop where
  | ok {a b : Store} (agree : a.AgreeOn places b) : LoadedAlike places (.ok a) (.ok b)
  | error (cause : ErrorChain) : LoadedAlike places (.error cause) (.error cause)

/-- The configuration of a session. -/
def loaded (arguments : Arguments) (around : Surroundings) : Except ErrorChain Store :=
  (loadStore arguments around.files around.configHome).1

variable {arguments other : Arguments} {around elsewhere : Surroundings}

theorem run_of_unloaded {cause : ErrorChain} (failed : loaded arguments around = .error cause) :
    (run arguments around).map Finished.ending =
      some (.error (.setup cause), { files := around.files, out := around.stdout }) := by
  unfold run
  rw [loaded] at failed
  generalize loadStore arguments around.files around.configHome = load at failed
  obtain ⟨result, loading⟩ := load
  obtain rfl : result = .error cause := failed
  rfl

theorem run_of_loaded {store : Store} (found : loaded arguments around = .ok store) :
    (run arguments around).map Finished.ending =
      (process arguments around store (collect arguments around).1).map Finished.ending := by
  unfold run
  rw [loaded] at found
  generalize loadStore arguments around.files around.configHome = load at found
  obtain ⟨result, loading⟩ := load
  obtain rfl : result = .ok store := found
  exact Option.map_map ..

theorem process_of_unopened {cause : ErrorChain} {files : FileSystem}
    (failed : openUnsupported arguments around.files = (.error cause, files)) (store : Store)
    (items : List Item) :
    (process arguments around store items).map Finished.ending =
      some (.error (.setup cause), { files, out := around.stdout }) := by
  unfold process
  rw [failed]
  rfl

theorem process_of_opened {files : FileSystem}
    (opened : openUnsupported arguments around.files = (.ok (), files)) (store : Store)
    (items : List Item) :
    let done := (World.workshop (.ofCount arguments.getUrls) around.registry around.get
      arguments.writeUnsupported).dispatch items store (some { files, out := around.stdout })
    (process arguments around store items).map Finished.ending =
      done.state.map fun world => (done.result.mapError .dispatch, world) := by
  intro done
  obtain ⟨result, _, state⟩ := dispatch_alike (World.workshop (.ofCount arguments.getUrls)
    around.registry around.get arguments.writeUnsupported)
    (progressTemplate? arguments around store items) items store
    (some { files, out := around.stdout })
  unfold process
  rw [opened]
  simp only [result, state, Option.map_map]
  rfl

theorem process_alike (same : SameTask arguments other around elsewhere)
    (builtIn : around.registry.BuiltIn) {a b : Store}
    (agree : a.AgreeOn DownloadSettings.optionPlaces b) (items : List Item) :
    (process arguments around a items).map Finished.ending =
      (process other elsewhere b items).map Finished.ending := by
  obtain ⟨_, _, getUrls, writeUnsupported, files, _, stdout, get, registry⟩ := same
  have openedAlike : openUnsupported other elsewhere.files = openUnsupported arguments around.files := by
    simp only [openUnsupported, ← writeUnsupported, ← files]
  rcases opened : openUnsupported arguments around.files with ⟨result | _, after⟩
  · rw [process_of_unopened opened, process_of_unopened (openedAlike.trans opened), stdout]
  · have reads := ((JobKind.ofCount arguments.getUrls).factory_reads builtIn around.get).workshop
      (arguments.writeUnsupported.map fun path => (World.sink path).record)
    obtain ⟨result, state, _, _⟩ :=
      reads.dispatch agree items (some { files := after, out := around.stdout })
    have first := process_of_opened opened a items
    have second := process_of_opened (openedAlike.trans opened) b items
    rw [← getUrls, ← writeUnsupported, ← stdout, ← get, ← registry] at second
    rw [first, second, World.workshop, result, state]

theorem run_alike (same : SameTask arguments other around elsewhere)
    (builtIn : around.registry.BuiltIn)
    (alike : LoadedAlike DownloadSettings.optionPlaces (loaded arguments around)
      (loaded other elsewhere)) :
    (run arguments around).map Finished.ending = (run other elsewhere).map Finished.ending := by
  have collected : collect other elsewhere = collect arguments around := by
    simp only [collect, ← same.urls, ← same.inputFiles, ← same.files, ← same.stdin]
  generalize loadA : loaded arguments around = first at alike
  generalize loadB : loaded other elsewhere = second at alike
  cases alike with
  | error cause => rw [run_of_unloaded loadA, run_of_unloaded loadB, same.files, same.stdout]
  | @ok a b agree =>
    rw [run_of_loaded loadA, run_of_loaded loadB, collected]
    exact process_alike same builtIn agree _

/-- The settings that are not about the progress lines. -/
def silent (settings : List Setting) : List Setting :=
  settings.filter fun setting => !setting.isAt "output" "progress"

theorem last?_silent (settings : List Setting) {sectionName key : String}
    (elsewhere : ¬(sectionName = "output" ∧ key = "progress")) :
    Setting.last? (silent settings) sectionName key = Setting.last? settings sectionName key := by
  have same (setting : Setting) : ((!setting.isAt "output" "progress") = true ∧
      setting.isAt sectionName key = true) ↔ setting.isAt sectionName key = true := by
    refine and_iff_right_of_imp fun here => ?_
    rw [Bool.not_eq_true', Bool.eq_false_iff]
    intro progress
    obtain ⟨sectionOf, keyOf⟩ := Setting.isAt_iff.mp here
    obtain ⟨output, named⟩ := Setting.isAt_iff.mp progress
    exact elsewhere ⟨sectionOf.trans output.symm, keyOf.trans named.symm⟩
  rw [Setting.last?, Setting.last?, silent, ← List.filter_reverse, List.find?_filter]
  simp only [same, Bool.decide_eq_true]

theorem option_not_progress {place : String × String}
    (option : place ∈ DownloadSettings.optionPlaces) :
    ¬(place.1 = "output" ∧ place.2 = "progress") := by
  have every : ∀ place ∈ DownloadSettings.optionPlaces,
      ¬(place.1 = "output" ∧ place.2 = "progress") := by decide
  exact every place option

/-- An option of the command line about progress lines does not change what downloads read. -/
theorem overrides_alike (settings : List Setting) (same : silent settings = silent arguments.settings)
    (store : Store) :
    (store.setAll arguments.overrides).AgreeOn DownloadSettings.optionPlaces
      (store.setAll { arguments with settings }.overrides) := by
  intro place option
  have elsewhere := option_not_progress option
  -- The last setting at such a place is among those that are the same in both command lines.
  have last : Setting.last? arguments.settings place.1 place.2 =
      Setting.last? settings place.1 place.2 := by
    rw [← last?_silent arguments.settings elsewhere, ← same, last?_silent settings elsewhere]
  rw [Store.get?_setAll, Store.get?_setAll]
  simp only [Arguments.overrides, Setting.last?_append, last]

theorem loaded_alike (level : Option Verbosity) (verbose quiet : Bool) (settings : List Setting)
    (same : silent settings = silent arguments.settings) (rules : Option String) :
    LoadedAlike DownloadSettings.optionPlaces (loaded arguments around)
      (loaded { arguments with logLevel := level, verbose, quiet, settings }
        { around with logRules := rules }) := by
  unfold loaded loadStore
  simp only
  show LoadedAlike _ (Except.map _ (loadNamed .standard around.files
    (defaults arguments around.files around.configHome).store arguments.configFiles)) _
  have sameDefaults : defaults { arguments with logLevel := level, verbose, quiet, settings }
      around.files around.configHome = defaults arguments around.files around.configHome := rfl
  rw [sameDefaults]
  cases loadNamed .standard around.files (defaults arguments around.files around.configHome).store
    arguments.configFiles with
  | error cause => exact .error cause
  | ok store => exact .ok (overrides_alike settings same store)

/-- Jobs depend on nothing but their options. A batch of the built-in handlers gives the same result,
leaves the same files, standard output and record of unsupported targets, and shows the same events,
from any two stores that agree on the options of downloads, and the stores agree there again when it
has ended. So do whole sessions with the same task, if one of them ends at all; in particular the log
level, the rules of the log filter and the value of the progress option change neither the exit code,
nor the output, nor any file. -/
theorem run_reads_options (registry : Registry) (builtIn : registry.BuiltIn) :
    (∀ (kind : JobKind) (get : Url → Exchange) (τ : Type)
      (record : Option (String → Option World × τ → Except IoError Unit × (Option World × τ)))
      (items : List Item) (a b : Store) (state : Option World × τ),
      a.AgreeOn DownloadSettings.optionPlaces b →
      let shop := ((kind.factory registry get).beside τ).workshop record
      Dispatched.AgreeOn DownloadSettings.optionPlaces (shop.dispatch items a state)
        (shop.dispatch items b state)) ∧
    (∀ (arguments other : Arguments) (around elsewhere : Surroundings),
      around.registry = registry → SameTask arguments other around elsewhere →
      LoadedAlike DownloadSettings.optionPlaces (loaded arguments around) (loaded other elsewhere) →
      (run arguments around).map Finished.ending = (run other elsewhere).map Finished.ending) ∧
    ∀ (arguments : Arguments) (around : Surroundings), around.registry = registry →
      ∀ (level : Option Verbosity) (verbose quiet : Bool) (settings : List Setting)
        (rules : Option String), silent settings = silent arguments.settings →
        let other := { arguments with logLevel := level, verbose, quiet, settings }
        let elsewhere := { around with logRules := rules }
        (run other elsewhere).map Finished.exitCode = (run arguments around).map Finished.exitCode ∧
        (run other elsewhere).map Finished.ending = (run arguments around).map Finished.ending := by
  refine ⟨?_, ?_, ?_⟩
  · intro kind get τ record items a b state agree shop
    have reads := ((kind.factory_reads builtIn get).beside τ).workshop record
    exact reads.dispatch agree items state
  · rintro arguments other around elsewhere rfl same alike
    exact run_alike same builtIn alike
  · rintro arguments around rfl level verbose quiet settings rules same other elsewhere
    have task : SameTask arguments other around elsewhere :=
      ⟨rfl, rfl, rfl, rfl, rfl, rfl, rfl, rfl, rfl⟩
    have endings := run_alike task builtIn (loaded_alike level verbose quiet settings same rules)
    refine ⟨?_, endings.symm⟩
    have codes := congrArg (Option.map fun ending => Finished.exitCode ⟨ending.1, ending.2, []⟩) endings
    rw [Option.map_map, Option.map_map] at codes
    exact codes.symm

/-- Two sessions that write what no handler accepts to a file; the second one shows its progress and
logs more. -/
theorem run_reads_options_told :
    let progress (value : Json) : Setting := ⟨"output", "progress", value⟩
    let skip : Setting := ⟨globalSection, "skip", .bool false⟩
    let arguments : Arguments :=
      { urls := ["odd", "a.m3u"], writeUnsupported := some "log", ignoreConfig := true,
        settings := [progress (.bool false), skip] }
    let around : Surroundings := { files := {}, configHome := "/etc" }
    let settings := [progress (.bool true), skip, progress (.str "{url}")]
    let other := { arguments with logLevel := some .trace, verbose := true, quiet := true, settings }
    let finished := run other { around with logRules := some "debug" }
    let shop := ((JobKind.download.factory .standard around.get).beside Unit).workshop none
    let odd := Store.empty.set (progress .null)
    Registry.standard.BuiltIn ∧ odd.AgreeOn DownloadSettings.optionPlaces .empty ∧
      Dispatched.AgreeOn DownloadSettings.optionPlaces
        (shop.dispatch [.plain "odd"] odd (some { files := {} }, ()))
        (shop.dispatch [.plain "odd"] .empty (some { files := {} }, ())) ∧
      silent settings = silent arguments.settings ∧
      finished.map Finished.exitCode = some 64 ∧
      finished.map (fun finished => finished.world.files.readText "log") =
        some (.ok "odd
a.m3u
") := by
  intro progress skip arguments around settings other finished shop odd
  have agree : odd.AgreeOn DownloadSettings.optionPlaces .empty := by decide +kernel
  have same : silent settings = silent arguments.settings := by decide +kernel
  have code : (run arguments around).map Finished.exitCode = some 64 := by decide +kernel
  have log : ((run arguments around).map Finished.ending).map
      (fun ending => ending.2.files.readText "log") = some (.ok "odd
a.m3u
") := by
    decide +kernel
  obtain ⟨batches, _, unaffected⟩ := run_reads_options .standard Registry.standard_builtIn
  obtain ⟨sameCode, sameEnding⟩ := unaffected arguments around rfl (some .trace) true true settings
    (some "debug") same
  refine ⟨Registry.standard_builtIn, agree,
    batches .download _ Unit none [.plain "odd"] odd .empty (some { files := {} }, ()) agree, same,
    Eq.trans sameCode code, ?_⟩
  rw [← sameEnding, Option.map_map] at log
  exact log

end Session
end BatchFetch
