import BatchFetch.Proofs.Files.Kept
import BatchFetch.Proofs.Job.Acts

namespace BatchFetch

namespace Download

variable {site : Site} {settings : DownloadSettings} {root : Url}

/-- What a turn does to the file system: at most directories are new, or a file has been written, if
only in part. -/
inductive Change (site : Site) (settings : DownloadSettings) (stage : Stage) (acts : List Act) :
    FileSystem → Prop
  | dirs {after : FileSystem} : acts.filterMap Act.reached? = [] →
      FileSystem.AddsDirs stage.state.files after → Change site settings stage acts after
  | reached {url : Url} {made : FileSystem} {target : FileSystem.Target} {bytes left : Bytes}
      {failure : Option Fault} :
      stage.At url stage.state → ¬ Skips settings url stage.state.files →
      (site.fetch url).result = .ok bytes → FileSystem.AddsDirs stage.state.files made →
      made.locate (settings.destination url) = .ok target → target.isWritable = true →
      made.Arrives bytes failure left →
      acts.filterMap Act.reached? = [settings.destination url] →
      .write (settings.destination url) bytes failure ∈ acts →
      Change site settings stage acts (made.asked.put target.place (.file left))

/-- Requests do not change files. -/
theorem Change.asking {stage : Stage} {acts : List Act} {after : FileSystem}
    (change : Change site settings stage acts after) (urls : List Url) :
    Change site settings stage (urls.map .ask ++ acts) after := by
  have reached : (urls.map Act.ask ++ acts).filterMap Act.reached? = acts.filterMap Act.reached? := by
    rw [List.filterMap_append, Act.reached_map_ask, List.nil_append]
  cases change with
  | dirs none adds => exact .dirs (reached.trans none) adds
  | reached at_ tries came adds located writable arrives one wrote =>
    exact .reached at_ tries came adds located writable arrives (reached.trans one)
      (List.mem_append_right _ wrote)

theorem Change.of_storing {stage : Stage} (stands : stage.state.files.Stands) {url : Url}
    (at_ : stage.At url stage.state) (tries : ¬ Skips settings url stage.state.files)
    {bytes : Bytes} (came : (site.fetch url).result = .ok bytes) {after : FileSystem}
    {bits : ExitStatus}
    (storing : Storing (settings.destination url) bytes stage.state.files after bits) :
    Change site settings stage (storeActs stage.state.files (settings.destination url) bytes)
      after := by
  have written {made after : FileSystem} {result : Except Fault Unit}
      (created : stage.state.files.createDirAll (folder (settings.destination url)) = (.ok (), made))
      (wrote : made.write (settings.destination url) bytes = (result, after)) :
      Change site settings stage (storeActs stage.state.files (settings.destination url) bytes)
        after := by
    have adds := stands.createDirAll created
    simp only [storeActs, created, wrote]
    cases FileSystem.wrote_write wrote with
    | nowhere => exact .dirs rfl adds
    | refused => exact .dirs rfl adds.asked
    | broken among located writable =>
      exact .reached at_ tries came adds located writable (.part among) rfl
        (List.mem_cons_of_mem _ (List.mem_singleton_self _))
    | whole located writable =>
      exact .reached at_ tries came adds located writable .whole rfl
        (List.mem_cons_of_mem _ (List.mem_singleton_self _))
  cases storing with
  | noFolder created =>
    simp only [storeActs, created]
    exact .dirs rfl (stands.createDirAll created)
  | unwritten created wrote => exact written created wrote
  | stored created wrote => exact written created wrote

theorem Change.of_file {stage : Stage} (stands : stage.state.files.Stands) {url : Url}
    (at_ : stage.At url stage.state) :
    Change site settings stage (fileActs site settings url stage.state.files)
      (file site settings root url stage.state).2.files := by
  by_cases skips : Skips settings url stage.state.files
  · rw [file_of_skips skips, fileActs_of_skips skips, skip_files]
    exact .dirs rfl (.refl stands)
  · rw [fileActs_of_tries skips]
    cases came : (site.fetch url).result with
    | error =>
      rw [file_of_unfetched skips came, List.append_nil]
      exact .dirs (Act.reached_map_ask _) (.refl stands)
    | ok bytes =>
      rw [file_of_fetched skips came]
      obtain ⟨bits, storing, _⟩ :=
        exists_storing (stage.state.asking site url) (settings.destination url) bytes
      exact (Change.of_storing stands at_ skips came storing).asking _

theorem Step.change {stage middle : Stage} {deeds : List Deed}
    (step : Step site settings root stage deeds middle) (stands : stage.state.files.Stands) :
    Change site settings stage (stage.acts site settings) middle.state.files := by
  cases step with
  | @hand seen queue url entries state after aborted handled =>
    have change : Change site settings ⟨seen, queue, .file url :: entries, state, false⟩
        (fileActs site settings url state.files)
        (file site settings root url state).2.files := .of_file stands .next
    rw [handled] at change
    exact change
  | @resolve seen queue url state => exact .dirs (Act.reached_map_ask _) (.refl stands)
  | known | discover | report => exact .dirs rfl (.refl stands)

/-- What a download leaves behind that skips what is there, told by what it has done. -/
structure Kept (site : Site) (settings : DownloadSettings) (root : Url) (files : FileSystem)
    (acts : List Act) (now : FileSystem) : Prop where
  keeps : files.Keeps now
  stands : now.Stands
  faults : now.faults <:+ files.faults
  there : ∀ path ∈ acts.filterMap Act.reached?, now.node? (files.placeOf path) ≠ none
  once : ((acts.filterMap Act.reached?).map files.placeOf).Nodup
  fetched : ∀ place content, files.node? place = none →
    now.node? place = some (.file content) →
    ∃ file bytes failure, site.ReachesFile root file ∧ (site.fetch file).result = .ok bytes ∧
      .write (settings.destination file) bytes failure ∈ acts ∧
      files.Arrives bytes failure content ∧
      now.locate (settings.destination file) = .ok (.file place content)

theorem Kept.start {files : FileSystem} (stands : files.Stands) :
    Kept site settings root files [] files where
  keeps := .refl files
  stands := stands
  faults := List.suffix_rfl
  there _ absent := absurd absent List.not_mem_nil
  once := List.nodup_nil
  fetched _ _ absent present := by
    rw [absent] at present
    cases present

/-- New directories do not matter. -/
theorem Kept.addsDirs {files now made : FileSystem} {acts : List Act}
    (kept : Kept site settings root files acts now) (adds : FileSystem.AddsDirs now made) :
    Kept site settings root files acts made where
  keeps := kept.keeps.trans adds.keeps
  stands := adds.stands
  faults := adds.faults.trans kept.faults
  there path member := by
    obtain ⟨node, present⟩ := Option.ne_none_iff_exists'.mp (kept.there path member)
    rw [adds.keeps.node _ node present]
    exact Option.some_ne_none node
  once := kept.once
  fetched place content absent present := by
    obtain ⟨file, bytes, failure, reaches, came, wrote, arrives, located⟩ :=
      kept.fetched place content absent (adds.file place content present)
    exact ⟨file, bytes, failure, reaches, came, wrote, arrives, adds.keeps.locate_file located⟩

/-- Acts that reach no file do not matter. -/
theorem Kept.quiet {files now : FileSystem} {acts more : List Act}
    (kept : Kept site settings root files acts now) (none : more.filterMap Act.reached? = []) :
    Kept site settings root files (acts ++ more) now := by
  have same : (acts ++ more).filterMap Act.reached? = acts.filterMap Act.reached? := by
    rw [List.filterMap_append, none, List.append_nil]
  refine ⟨kept.keeps, kept.stands, kept.faults, same ▸ kept.there, same ▸ kept.once, ?_⟩
  intro place content absent present
  obtain ⟨file, bytes, failure, reaches, came, wrote, rest⟩ :=
    kept.fetched place content absent present
  exact ⟨file, bytes, failure, reaches, came, List.mem_append_left _ wrote, rest⟩

/-- A file is put where nothing was. -/
theorem Kept.put {files now : FileSystem} {acts more : List Act} {url : Url} {bytes left : Bytes}
    {failure : Option Fault} (kept : Kept site settings root files acts now)
    (reaches : site.ReachesFile root url) (came : (site.fetch url).result = .ok bytes)
    (missing : now.locate (settings.destination url) =
      .ok (.missing (files.placeOf (settings.destination url)) false))
    (arrives : now.Arrives bytes failure left)
    (one : more.filterMap Act.reached? = [settings.destination url])
    (wrote : .write (settings.destination url) bytes failure ∈ more) :
    Kept site settings root files (acts ++ more)
      (now.asked.put (files.placeOf (settings.destination url)) (.file left)) := by
  obtain ⟨keeps, stands⟩ := kept.stands.put_missing missing (.file left)
  obtain ⟨isPath, leads⟩ := FileSystem.locate_ok_iff.mp
    (FileSystem.locate_asked now (settings.destination url) ▸ missing)
  obtain ⟨absent, some⟩ := leads.node.2 _ false rfl
  have reached : (acts ++ more).filterMap Act.reached? =
      acts.filterMap Act.reached? ++ [settings.destination url] := by
    rw [List.filterMap_append, one]
  refine ⟨kept.keeps.trans keeps, stands, (List.tail_suffix _).trans kept.faults, ?_, ?_, ?_⟩
  · intro path member
    rw [reached] at member
    rcases List.mem_append.mp member with earlier | same
    · obtain ⟨node, present⟩ := Option.ne_none_iff_exists'.mp (kept.there path earlier)
      rw [keeps.node _ node present]
      exact Option.some_ne_none node
    · rw [List.mem_singleton.mp same, FileSystem.node?_put_self some]
      exact Option.some_ne_none _
  · rw [reached, List.map_append, List.map_singleton, ← List.concat_eq_append, List.nodup_concat]
    refine ⟨fun member => ?_, kept.once⟩
    obtain ⟨path, earlier, same⟩ := List.mem_map.mp member
    exact kept.there path earlier (same ▸ absent)
  · intro place content before present
    by_cases same : place = files.placeOf (settings.destination url)
    · subst same
      rw [FileSystem.node?_put_self some] at present
      cases present
      exact ⟨url, bytes, failure, reaches, came, List.mem_append_right _ wrote,
        arrives.of_suffix kept.faults,
        FileSystem.locate_ok_iff.mpr ⟨isPath, leads.put rfl left⟩⟩
    · rw [FileSystem.node?_put_of_ne same] at present
      obtain ⟨file, sent, fault, reachesToo, cameToo, wroteToo, arrivesToo, located⟩ :=
        kept.fetched place content before present
      exact ⟨file, sent, fault, reachesToo, cameToo, List.mem_append_left _ wroteToo, arrivesToo,
        keeps.locate_file located⟩

/-- A turn keeps it, if what it stores was not there and its path has no `..`. -/
theorem Kept.next {files : FileSystem} {acts more : List Act} {stage : Stage}
    (kept : Kept site settings root files acts stage.state.files)
    (patient : settings.skip ≠ .disabled) (inside : stage.FilesInside site root)
    (noUp : ∀ url, stage.At url stage.state → ".." ∉ Path.pieces (settings.destination url))
    {after : FileSystem} (change : Change site settings stage more after) :
    Kept site settings root files (acts ++ more) after := by
  cases change with
  | dirs none adds => exact (kept.addsDirs adds).quiet none
  | @reached url made target bytes left failure at_ tries came adds located writable arrives one
      wrote =>
    have absent : stage.state.files.pathExists (settings.destination url) = false :=
      Bool.eq_false_iff.mpr fun there => tries ⟨there, patient⟩
    obtain rfl := adds.missing kept.stands (noUp url at_) absent located writable
    rw [kept.keeps.grows.placeOf] at located ⊢
    exact (kept.addsDirs adds).put (at_.reachesFile inside) came located arrives one wrote

theorem Passes.kept {start last : Stage} {passed : List Stage}
    (passes : Passes site settings root start passed last) (stands : start.state.files.Stands)
    (patient : settings.skip ≠ .disabled) (inside : ∀ stage ∈ passed, stage.FilesInside site root)
    (noUp : ∀ stage ∈ passed, ∀ url, stage.At url stage.state →
      ".." ∉ Path.pieces (settings.destination url)) :
    Kept site settings root start.state.files (passed.flatMap (Stage.acts site settings))
      last.state.files := by
  induction passes with
  | here => exact .start stands
  | @next passed stage middle deeds _ step ih =>
    have here := List.mem_append_right passed (List.mem_singleton_self stage)
    have kept := ih (fun stage member => inside stage (List.mem_append_left _ member))
      fun stage member => noUp stage (List.mem_append_left _ member)
    rw [List.flatMap_append, List.flatMap_singleton]
    exact kept.next patient (inside stage here) (noUp stage here) (step.change kept.stands)

end Download

namespace Registry

end Registry
end BatchFetch
