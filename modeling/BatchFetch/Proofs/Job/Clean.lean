import BatchFetch.Proofs.Files.Places
import BatchFetch.Proofs.Job.Failures
import BatchFetch.Proofs.Job.Targets

namespace BatchFetch

namespace Download

variable {site : Site} {settings : DownloadSettings} {root : Url}

theorem Handling.grows {url : Url} {files after : FileSystem} {bits : ExitStatus}
    (handling : Handling site settings url files after bits) : files.Grows after := by
  cases handling with
  | skipped => exact .refl files
  | unfetched => exact .refl files
  | fetched _ _ storing =>
    have created := files.grows_createDirAll (folder (settings.destination url))
    cases storing with
    | noFolder made =>
      rw [made] at created
      exact created
    | unwritten made wrote | stored made wrote =>
      rw [made] at created
      exact created.trans (FileSystem.wrote_write wrote).grows

theorem Step.grows {stage middle : Stage} {deeds : List Deed}
    (step : Step site settings root stage deeds middle) :
    stage.state.files.Grows middle.state.files := by
  cases step with
  | @hand seen queue url entries state after aborted handled =>
    obtain ⟨_, handling, _⟩ := exists_handling site settings root url state
    rw [handled] at handling
    exact handling.grows
  | _ => exact .refl _

theorem Steps.grows {stage last : Stage} {deeds : List Deed}
    (steps : Steps site settings root stage deeds last) :
    stage.state.files.Grows last.state.files := by
  induction steps with
  | refl stage => exact .refl _
  | head step _ ih => exact step.grows.trans ih

theorem Steps.exists_bits {stage last : Stage} {deeds : List Deed}
    (steps : Steps site settings root stage deeds last) :
    ∃ bits, last.state.trail.status = stage.state.trail.status ||| bits := by
  induction steps with
  | refl => exact ⟨.success, (ExitStatus.union_success _).symm⟩
  | head step _ ih =>
    obtain ⟨bits, first, _⟩ := step.contributed
    obtain ⟨others, second⟩ := ih
    exact ⟨bits ||| others, by rw [second, first, ExitStatus.union_assoc]⟩

/-- A clean run that hands on a file is cut at that turn, and the file adds no bits there. -/
theorem Steps.exists_turn {stage last : Stage} {deeds : List Deed} {file : Url}
    (steps : Steps site settings root stage deeds last)
    (clean : last.state.trail.status = .success) (handed : .hand file ∈ deeds) :
    ∃ before after middle next, deeds = before ++ .hand file :: after ∧
      Steps site settings root stage before middle ∧ Steps site settings root next after last ∧
      Handling site settings file middle.state.files next.state.files .success := by
  induction steps with
  | refl => cases handed
  | @head stage middle last deeds more step rest ih =>
    rcases List.mem_append.mp handed with now | later
    · cases step with
      | @hand seen queue url entries state after aborted handled =>
        cases List.mem_singleton.mp now
        obtain ⟨bits, handling, status⟩ := exists_handling site settings root file state
        obtain ⟨others, whole⟩ := rest.exists_bits
        rw [handled] at handling status
        rw [clean] at whole
        have cleanAfter : after.trail.status = .success :=
          (ExitStatus.eq_success_of_union whole.symm).1
        rw [cleanAfter] at status
        rw [(ExitStatus.eq_success_of_union status.symm).2] at handling
        exact ⟨[], more, _, _, rfl, .refl _, rest, handling⟩
      | resolve => cases List.mem_singleton.mp now
      | report => cases List.mem_singleton.mp now
      | known => cases now
      | discover => cases now
    · obtain ⟨before, after, other, next, rfl, steps, restToo, handling⟩ := ih clean later
      exact ⟨deeds ++ before, after, other, next, (List.append_assoc _ _ _).symm,
        .head step steps, restToo, handling⟩

section

variable {file url : Url} (unnamed : settings.filename = none)
  (noUp : ".." ∉ Path.pieces settings.baseDirectory)
  (plain : Path.IsPlain (DownloadSettings.segmentOf file))

include unnamed noUp plain

/-- With file names as they are, only the file itself changes what is at its place. -/
theorem Handling.node?_eq {files after : FileSystem} {bits : ExitStatus}
    (handling : Handling site settings url files after bits)
    (plainToo : Path.IsPlain (DownloadSettings.segmentOf url))
    (differs : settings.destination url ≠ settings.destination file) :
    after.node? (files.placeOf (settings.destination file)) =
      files.node? (files.placeOf (settings.destination file)) := by
  have created := files.node?_of_createDirAll plain plainToo noUp
  have grown := files.grows_createDirAll (folder (settings.destination url))
  rw [← destination_of_unnamed unnamed, ← destination_of_unnamed unnamed, ← folder] at created
  cases handling with
  | skipped => rfl
  | unfetched => rfl
  | fetched _ _ storing =>
    cases storing with
    | noFolder made =>
      rw [made] at created
      exact created
    | unwritten made wrote | stored made wrote =>
      rw [made] at created grown
      rw [← created]
      refine FileSystem.node?_of_write wrote ?_ ?_
      · rw [destination_of_unnamed unnamed]
        exact mt (Path.up_of_join plainToo) noUp
      · rw [grown.placeOf, destination_of_unnamed unnamed url, destination_of_unnamed unnamed file,
          FileSystem.placeOf_join plain, FileSystem.placeOf_join plainToo]
        intro same
        have names := List.singleton_inj.mp (List.append_cancel_left same)
        refine differs ?_
        rw [destination_of_unnamed unnamed, destination_of_unnamed unnamed, names]

theorem Steps.node?_eq {stage last : Stage} {deeds : List Deed}
    (steps : Steps site settings root stage deeds last)
    (others : ∀ url, .hand url ∈ deeds → Path.IsPlain (DownloadSettings.segmentOf url) ∧
      settings.destination url ≠ settings.destination file) :
    last.state.files.node? (stage.state.files.placeOf (settings.destination file)) =
      stage.state.files.node? (stage.state.files.placeOf (settings.destination file)) := by
  induction steps with
  | refl => rfl
  | @head stage middle last deeds more step _ ih =>
    have later := ih fun url member => others url (List.mem_append_right _ member)
    rw [step.grows.placeOf] at later
    rw [later]
    cases step with
    | @hand seen queue url entries state after aborted handled =>
      obtain ⟨plainToo, differs⟩ := others url (List.mem_append_left _ (List.mem_singleton_self _))
      obtain ⟨_, handling, _⟩ := exists_handling site settings root url state
      rw [handled] at handling
      exact handling.node?_eq unnamed noUp plain plainToo differs
    | _ => rfl

end

/-- A file that adds no bits was skipped, or has been written. -/
theorem Handling.clean {url : Url} {files after : FileSystem} {bits : ExitStatus}
    (handling : Handling site settings url files after bits) (noBits : bits = .success) :
    (Skips settings url files ∧ after = files) ∨
      ∃ bytes made, (site.fetch url).result = .ok bytes ∧ files.Grows made ∧
        made.write (settings.destination url) bytes = (.ok (), after) := by
  cases handling with
  | skipped skips => exact Or.inl ⟨skips, rfl⟩
  | unfetched _ failed =>
    have clean : ExitStatus.ofFetch (site.fetch url).result = .success := by
      rw [failed, ExitStatus.ofFetch, noBits]
    obtain ⟨_, came⟩ := ExitStatus.ok_of_ofFetch clean
    rw [failed] at came
    cases came
  | fetched _ came storing =>
    have created := files.grows_createDirAll (folder (settings.destination url))
    cases storing with
    | noFolder => exact absurd noBits (by decide)
    | unwritten => exact absurd noBits (by decide)
    | stored made wrote =>
      rw [made] at created
      exact Or.inr ⟨_, _, came, created, wrote⟩

/-- A file that adds no bits is written, if nothing is at its place. -/
theorem Handling.exists_stored {file : Url} {files after : FileSystem}
    (handling : Handling site settings file files after .success)
    (unnamed : settings.filename = none) (noUp : ".." ∉ Path.pieces settings.baseDirectory)
    (plain : Path.IsPlain (DownloadSettings.segmentOf file))
    (nothing : files.node? (files.placeOf (settings.destination file)) = none) :
    ∃ bytes, (site.fetch file).result = .ok bytes ∧
      after.node? (files.placeOf (settings.destination file)) = some (.file bytes) := by
  have destination := destination_of_unnamed unnamed file
  rcases handling.clean rfl with ⟨⟨there, _⟩, _⟩ | ⟨bytes, made, came, grown, wrote⟩
  · rw [destination] at there nothing
    exact absurd nothing (FileSystem.node?_of_pathExists plain noUp there)
  · rw [destination] at wrote ⊢
    rw [← grown.placeOf]
    exact ⟨bytes, came, FileSystem.node?_of_write_self plain noUp wrote⟩

theorem pathExists_of_write {files after : FileSystem} {path : String} {bytes : Bytes}
    (wrote : files.write path bytes = (.ok (), after)) : after.pathExists path = true := by
  obtain ⟨place, located⟩ := FileSystem.locate_of_write wrote
  exact FileSystem.pathExists_iff.mpr ⟨_, located, rfl⟩

/-- A clean run has something at the destination of each file that it has handed on. -/
theorem Steps.pathExists {stage last : Stage} {deeds : List Deed} {file : Url}
    (steps : Steps site settings root stage deeds last)
    (clean : last.state.trail.status = .success) (handed : .hand file ∈ deeds) :
    last.state.files.pathExists (settings.destination file) = true := by
  obtain ⟨before, after, middle, next, _, _, rest, handling⟩ := steps.exists_turn clean handed
  refine rest.grows.pathExists ?_
  rcases handling.clean rfl with ⟨skips, same⟩ | ⟨bytes, made, _, _, wrote⟩
  · rw [same]
    exact skips.1
  · exact pathExists_of_write wrote

/-- Where nothing was before, and no other file has the same destination, a clean run leaves the
bytes that were fetched. -/
theorem Steps.read {stage last : Stage} {deeds : List Deed} {file : Url}
    (steps : Steps site settings root stage deeds last)
    (clean : last.state.trail.status = .success) (unnamed : settings.filename = none)
    (noUp : ".." ∉ Path.pieces settings.baseDirectory) (tree : stage.state.files.IsTree)
    (handed : .hand file ∈ deeds) (once : (deeds.filterMap Deed.handed?).Nodup)
    (plain : ∀ url, .hand url ∈ deeds → Path.IsPlain (DownloadSettings.segmentOf url))
    (unshared : ∀ url, .hand url ∈ deeds → settings.destination url = settings.destination file →
      url = file)
    (absent : stage.state.files.pathExists (settings.destination file) = false) :
    ∃ bytes, (site.fetch file).result = .ok bytes ∧
      last.state.files.read (settings.destination file) = .ok bytes := by
  have plainFile := plain file handed
  have destination := destination_of_unnamed unnamed file
  have present := steps.pathExists clean handed
  have nothing : stage.state.files.node?
      (stage.state.files.placeOf (settings.destination file)) = none := by
    obtain ⟨target, located, _⟩ := FileSystem.pathExists_iff.mp present
    rw [destination] at absent located ⊢
    exact tree.absent plainFile noUp absent ⟨target, located⟩
  obtain ⟨before, after, middle, next, rfl, first, rest, handling⟩ := steps.exists_turn clean handed
  -- The turns before and after that of the file hand on other files.
  have onlyHere : file ∉ before.filterMap Deed.handed? ∧ file ∉ after.filterMap Deed.handed? := by
    have here : (Deed.hand file :: after).filterMap Deed.handed? =
        file :: after.filterMap Deed.handed? := rfl
    rw [List.filterMap_append, here] at once
    exact not_or.mp (mt List.mem_append.mpr (List.nodup_cons.mp (List.nodup_middle.mp once)).1)
  have others {turns : List Deed} (notThere : file ∉ turns.filterMap Deed.handed?)
      (among : ∀ deed ∈ turns, deed ∈ before ++ .hand file :: after) :
      ∀ url, .hand url ∈ turns → Path.IsPlain (DownloadSettings.segmentOf url) ∧
        settings.destination url ≠ settings.destination file := by
    intro url member
    refine ⟨plain url (among _ member), fun shared => ?_⟩
    rw [unshared url (among _ member) shared] at member
    exact notThere (Deed.mem_handed.mpr member)
  have untouched := first.node?_eq unnamed noUp plainFile
    (others onlyHere.1 fun _ member => List.mem_append_left _ member)
  have kept := rest.node?_eq unnamed noUp plainFile
    (others onlyHere.2 fun _ member => List.mem_append_right _ (List.mem_cons_of_mem _ member))
  rw [nothing, ← first.grows.placeOf] at untouched
  obtain ⟨bytes, came, stored⟩ := handling.exists_stored unnamed noUp plainFile untouched
  rw [← handling.grows.placeOf, ← kept, ← rest.grows.placeOf] at stored
  rw [destination] at present stored ⊢
  exact ⟨bytes, came, FileSystem.read_of_node? plainFile noUp present stored⟩

end Download

namespace Registry

variable {registry : Registry} {get : Url → Exchange}

/-- A playlist that adds no bits has come whole. -/
theorem BuiltIn.exists_page (builtIn : registry.BuiltIn) {url : Url}
    (isPlaylist : registry.IsPlaylist url)
    (quiet : ∀ bit : ExitStatus, bit.IsBit →
      ¬ (ExitStatus.ofFetch ((registry.siteBy get).expand url).result).contains bit = true) :
    ∃ page, (get url).Yields page := by
  cases (get url).ends url with
  | yields yields => exact ⟨_, yields⟩
  | missing missing =>
    have inside := (builtIn.expand_missing_iff get url).mpr ⟨isPlaylist, missing⟩
    exact absurd inside (quiet _ ExitStatus.isBit_missing)
  | broken broken =>
    have inside := (builtIn.expand_http_iff get url).mpr ⟨isPlaylist, broken⟩
    exact absurd inside (quiet _ ExitStatus.isBit_http)

/-- A download that is completed with no bits has left nothing out: all that the target leads to is
claimed, each playlist has come, and something is at the destination of each file. Where nothing
was before, and no other file goes, that is what the server has sent. -/
theorem clean_download_sound (registry : Registry) (builtIn : registry.BuiltIn)
    (get : Url → Exchange) (settings : DownloadSettings) (target : String) (root : Url)
    (handler : Handler) (found : registry.findFor? target = some (root, handler))
    (finite : (registry.siteBy get).FinitelyReaches root) (files : FileSystem)
    (clean : (Download.run (registry.siteBy get) settings root finite files).outcome =
      .completed .success) :
    let site := registry.siteBy get
    let final := (Download.run site settings root finite files).state.files
    (∀ url, site.Reaches root url → (registry.find? url).isSome) ∧
    (∀ url, site.Reaches root url → registry.IsPlaylist url → ∃ page, (get url).Yields page) ∧
    (∀ file, site.ReachesFile root file → final.pathExists (settings.destination file) = true) ∧
    (settings.filename = none → ".." ∉ Path.pieces settings.baseDirectory → files.IsTree →
      ∀ file, site.ReachesFile root file →
        files.pathExists (settings.destination file) = false →
        (∀ other, site.ReachesFile root other →
          settings.destination other = settings.destination file → other = file) →
        ∃ page, (get file).Yields page ∧
          final.read (settings.destination file) = .ok page.body) := by
  intro site final
  have claimed : site.claims root = true := claims_of_findFor found get
  obtain ⟨deeds, last, steps, ended, whole, status, answer⟩ :=
    Download.exists_steps_of_completed clean
  have final_eq : final = last.state.files := congrArg Download.State.files answer
  have breadth := steps.breadthFirst ended whole claimed
  have contributed := steps.contributed_of_start ended
  have quiet : ∀ deed ∈ deeds, ∀ bit : ExitStatus, bit.IsBit →
      ¬ (deed.bits site).contains bit = true := by
    intro deed member bit isBit inside
    have among := (contributed.contains_iff bit isBit).mpr (Or.inl ⟨deed, member, inside⟩)
    rw [status] at among
    exact isBit.not_success_contains among
  have handed (file : Url) : .hand file ∈ deeds ↔ site.ReachesFile root file :=
    Download.Deed.mem_handed.symm.trans (breadth.handed_iff file)
  refine ⟨?_, ?_, ?_, ?_⟩
  · intro url reach
    rw [← Option.isNone_eq_false_iff, ← Bool.not_eq_true, Option.isNone_iff_eq_none]
    intro unclaimed
    have reported := (breadth.reported_iff url).mpr ⟨reach, not_claims_iff.mpr unclaimed⟩
    exact quiet _ (Download.Deed.mem_reported.mp reported) _ ExitStatus.isBit_noHandler
      ((ExitStatus.isBit_noHandler.contains_iff_eq ExitStatus.isBit_noHandler).mpr rfl)
  · intro url reach isPlaylist
    have resolved := (breadth.resolved_iff url).mpr ⟨reach, isPlaylist.claims get⟩
    exact builtIn.exists_page isPlaylist (quiet _ (Download.Deed.mem_resolved.mp resolved))
  · intro file reaches
    rw [final_eq]
    exact steps.pathExists status ((handed file).mpr reaches)
  · intro unnamed noUp tree file reaches absent unshared
    have served := builtIn.served_of_findFor found
    have once : (deeds.filterMap Download.Deed.handed?).Nodup := by
      rw [breadth.handed_eq]
      exact nodup_flatMap_files builtIn get breadth.resolved_once
    obtain ⟨bytes, came, isRead⟩ := steps.read status unnamed noUp tree ((handed file).mpr reaches) once
      (fun url member => builtIn.isPlain_of_reachesFile served ((handed url).mp member))
      (fun url member => unshared url ((handed url).mp member)) absent
    obtain ⟨page, yields, rfl⟩ := fetch_ok_iff.mp came
    exact ⟨page, yields, by rw [final_eq, isRead]⟩

/-- A playlist of one file, which is there. -/
def albumWeb : Web where
  pages :=
    [(cyclicUrl "a.m3u", { body := Text.Utf8.encode "f.jpg\n".toList }),
      (cyclicUrl "f.jpg", { body := Text.Utf8.encode "F".toList })]

/-- The turns that store the file of the playlist. -/
theorem exists_steps_album :
    ∃ deeds last, Download.Steps (standard.siteBy albumWeb.get) {} (cyclicUrl "a.m3u")
        (.start (cyclicUrl "a.m3u") {}) deeds last ∧
      last.Ended ∧ last.state.trail.status = .success := by
  let site := standard.siteBy albumWeb.get
  let root := cyclicUrl "a.m3u"
  let file := cyclicUrl "f.jpg"
  have names : site.entries root = [.queue file] := by decide +kernel
  have itself : site.entries file = [.file file] := by decide +kernel
  let begin : Download.State := { files := {} }
  let resolved (state : Download.State) (url : Url) : Download.State :=
    { state with trail := state.trail.resolved url (site.expand url) }
  let after := Download.file site {} root file (resolved (resolved begin root) file)
  have first : Download.Step site {} root ⟨[root], [root], [], begin, false⟩ [.resolve root]
      ⟨[root], [], [.queue file], resolved begin root, false⟩ := names ▸ .resolve
  have second : Download.Step site {} root ⟨[root], [], [.queue file], resolved begin root, false⟩
      [] ⟨[file, root], [file], [], resolved begin root, false⟩ :=
    .discover (by decide +kernel) (by decide +kernel)
  have third : Download.Step site {} root ⟨[file, root], [file], [], resolved begin root, false⟩
      [.resolve file]
      ⟨[file, root], [], [.file file], resolved (resolved begin root) file, false⟩ :=
    itself ▸ .resolve
  have fourth : Download.Step site {} root
      ⟨[file, root], [], [.file file], resolved (resolved begin root) file, false⟩ [.hand file]
      ⟨[file, root], [], [], after.2, after.1⟩ := .hand rfl
  exact ⟨_, _, .head first (.head second (.head third (.head fourth (.refl _)))),
    Or.inr ⟨rfl, rfl⟩, by decide +kernel⟩

theorem clean_download_sound_album :
    standard.BuiltIn ∧
    standard.findFor? "http://h/a.m3u" = some (cyclicUrl "a.m3u", .playlist) ∧
    ∃ finite : (standard.siteBy albumWeb.get).FinitelyReaches (cyclicUrl "a.m3u"),
    (Download.run (standard.siteBy albumWeb.get) {} (cyclicUrl "a.m3u") finite {}).outcome =
      .completed .success ∧
    ∃ page, (albumWeb.get (cyclicUrl "f.jpg")).Yields page ∧
      (Download.run (standard.siteBy albumWeb.get) {} (cyclicUrl "a.m3u") finite
        {}).state.files.read "./f.jpg" = .ok page.body := by
  let site := standard.siteBy albumWeb.get
  let root := cyclicUrl "a.m3u"
  let file := cyclicUrl "f.jpg"
  have found : standard.findFor? "http://h/a.m3u" = some (root, .playlist) := by decide +kernel
  have finite : site.FinitelyReaches root := finitelyReaches standard albumWeb root
  have names : site.entries root = [.queue file] := by decide +kernel
  have itself : site.entries file = [.file file] := by decide +kernel
  have clean : (Download.run site {} root finite {}).outcome = .completed .success := by
    obtain ⟨_, last, steps, ended, _, answer⟩ :=
      Download.exists_steps_of_gentle Download.default_gentle finite {}
    obtain ⟨_, other, again, endedToo, success⟩ := exists_steps_album
    rw [answer, steps.eq_last ended again endedToo, success]
  obtain ⟨_, _, _, stored⟩ := clean_download_sound standard standard_builtIn albumWeb.get {}
    "http://h/a.m3u" root .playlist found finite {} clean
  have reached : ∀ url, site.Reaches root url → url = root ∨ url = file := by
    intro url reach
    induction reach with
    | root => exact Or.inl rfl
    | child _ named ih =>
      rcases ih with rfl | rfl
      · rw [Site.children, names] at named
        exact Or.inr (List.mem_singleton.mp named)
      · rw [Site.children, itself] at named
        cases named
  have reaches : site.ReachesFile root file := by
    refine ⟨file, .child .root ?_, ?_⟩
    · rw [Site.children, names]
      exact List.mem_singleton_self _
    · rw [itself]
      exact List.mem_singleton_self _
  have destination : ({} : DownloadSettings).destination file = "./f.jpg" := by decide +kernel
  refine ⟨standard_builtIn, found, finite, clean, ?_⟩
  rw [← destination]
  refine stored rfl (by decide +kernel) FileSystem.isTree_empty file reaches (by decide +kernel) ?_
  intro other reaches same
  obtain ⟨reach, _⟩ := (standard_builtIn.reachesFile_iff albumWeb.get).mp reaches
  rcases reached other reach with isRoot | isFile
  · rw [isRoot] at same
    exact absurd same (by decide +kernel)
  · exact isFile

end Registry
end BatchFetch
