import BatchFetch.Proofs.Files.Paths
import BatchFetch.Proofs.Job.Answers
import BatchFetch.Proofs.Url.Text

namespace BatchFetch

/-- A file that a root leads to. -/
def Site.ReachesFile (site : Site) (root file : Url) : Prop :=
  ∃ url, site.Reaches root url ∧ Entry.file file ∈ site.entries url

theorem Download.destination_of_unnamed {settings : DownloadSettings}
    (unnamed : settings.filename = none) (url : Url) :
    settings.destination url =
      Path.join settings.baseDirectory (DownloadSettings.segmentOf url) := by
  rw [DownloadSettings.destination, DownloadSettings.fileName, unnamed]

namespace Url

/-- An extension stands behind the last dot and something in front of that. -/
theorem exists_stem {url : Url} (extended : url.extension?.isSome = true) :
    ∃ segment stem extension, url.lastSegment? = some segment ∧
      segment.toList = stem ++ '.' :: extension ∧ stem ≠ [] ∧ extension ≠ [] ∧ '.' ∉ extension := by
  rw [extension?] at extended
  split at extended
  · cases extended
  · rename_i parted
    split_ifs at extended with empty
    · cases extended
    obtain ⟨segment, last, split⟩ := Option.bind_eq_some_iff.mp parted
    obtain ⟨⟨before, after⟩, cut, equal⟩ := Option.map_eq_some_iff.mp split
    cases equal
    simp only [Bool.or_eq_true, String.isEmpty_iff, String.ofList_eq_empty_iff, not_or] at empty
    obtain ⟨shape, noDot⟩ := Text.cutLast_eq_some_iff.mp cut
    exact ⟨segment, before, after, last, shape, empty.1, empty.2, noDot⟩

theorem lastSegment?_of_extension {url : Url} (extended : url.extension?.isSome = true) :
    url.lastSegment? = some (DownloadSettings.segmentOf url) := by
  obtain ⟨segment, stem, extension, last, shape, _⟩ := exists_stem extended
  rw [DownloadSettings.segmentOf, last]
  split
  · cases ‹some segment = none›
  · rename_i empty
    rw [Option.some.inj empty] at shape
    exact absurd shape.symm (List.append_ne_nil_of_right_ne_nil _ (List.cons_ne_nil _ _))
  · rename_i same
    rw [Option.some.inj same]

theorem Served.isSegment {url : Url} (served : url.Served) {segment : String}
    (last : url.lastSegment? = some segment) : IsSegment segment := by
  obtain ⟨segments, route, some, areSegments⟩ := served.route
  refine areSegments segment ?_
  rw [lastSegment?, pathSegments?, route] at last
  cases segments with
  | nil => exact absurd rfl some
  | cons => exact List.mem_of_getLast? last

/-- The last segment of a URL with an extension can be the name of a file. -/
theorem Served.isPlain {url : Url} (served : url.Served) (extended : url.extension?.isSome = true) :
    Path.IsPlain (DownloadSettings.segmentOf url) := by
  obtain ⟨segment, stem, extension, last, shape, stemSome, extensionSome, _⟩ := exists_stem extended
  have long : 3 ≤ segment.toList.length := by
    have before := List.length_pos_iff.mpr stemSome
    have after := List.length_pos_iff.mpr extensionSome
    rw [shape, List.length_append, List.length_cons]
    omega
  have differs {short : String} (short_ : short.toList.length < 3) : segment ≠ short := by
    rintro rfl
    omega
  rw [Option.some.inj ((lastSegment?_of_extension extended).symm.trans last)]
  refine ⟨served.isSegment last '/' (by decide), ?_, differs (by decide)⟩
  rw [Path.isIdle, Bool.or_eq_false_iff, ← Bool.not_eq_true, String.isEmpty_iff]
  exact ⟨differs (by decide), beq_false_of_ne (differs (by decide))⟩

end Url

namespace Registry

variable {registry : Registry} {get : Url → Exchange} {root url : Url}

theorem findFor?_eq_some {target : String} {handler : Handler}
    (found : registry.findFor? target = some (root, handler)) :
    Url.parse target registry.naming = .ok root ∧ registry.find? root = some handler := by
  rw [findFor?] at found
  split at found
  · cases found
  · rename_i read
    obtain ⟨handler, claims, equal⟩ := Option.map_eq_some_iff.mp found
    cases equal
    exact ⟨read, claims⟩

theorem claims_of_findFor {target : String} {handler : Handler}
    (found : registry.findFor? target = some (root, handler)) (get : Url → Exchange) :
    (registry.siteBy get).claims root = true := by
  simp only [siteBy, (findFor?_eq_some found).2, Option.isSome_some]

theorem BuiltIn.claims (builtIn : registry.BuiltIn) {handler : Handler}
    (found : registry.find? url = some handler) :
    url.isHttp = true ∧ url.extension?.isSome = true := by
  have accepts := List.find?_some found
  rcases builtIn handler (List.mem_of_find?_eq_some found) with rfl | rfl
  · rw [Handler.claims, Bool.and_eq_true, Bool.or_eq_true, beq_iff_eq, beq_iff_eq] at accepts
    obtain ⟨http, extension | extension⟩ := accepts
    · exact ⟨http, by rw [extension]; rfl⟩
    · exact ⟨http, by rw [extension]; rfl⟩
  · rw [Handler.claims, Bool.and_eq_true] at accepts
    exact accepts

/-- What is named by playlists from the URL of a server is such a URL itself, if it is claimed. -/
theorem BuiltIn.served_of_reaches (builtIn : registry.BuiltIn)
    (served : root.Served) (reach : (registry.siteBy get).Reaches root url)
    (http : url.isHttp = true) : url.Served := by
  induction reach with
  | root => exact served
  | @child url child _ named ih =>
    obtain ⟨isPlaylist, page, _, member⟩ := (builtIn.mem_children_iff get).mp named
    obtain ⟨line, _, read⟩ := Handler.mem_playlistEntries member
    exact (ih (builtIn.claims isPlaylist).1).join read http

theorem BuiltIn.served_of_findFor (builtIn : registry.BuiltIn) {target : String} {handler : Handler}
    (found : registry.findFor? target = some (root, handler)) : root.Served := by
  obtain ⟨read, claims⟩ := findFor?_eq_some found
  exact Url.parse_served read (builtIn.claims claims).1

/-- The files of built-in handlers are the targets that are no playlists. -/
theorem BuiltIn.file_mem_entries_iff (builtIn : registry.BuiltIn) (get : Url → Exchange)
    {file : Url} :
    Entry.file file ∈ (registry.siteBy get).entries url ↔
      url = file ∧ registry.find? file = some .direct := by
  by_cases isPlaylist : registry.IsPlaylist url
  · refine iff_of_false ?_ ?_
    · rw [← Site.mem_files, Site.files, Site.entries, expand_siteBy isPlaylist,
        Handler.files_playlist]
      exact List.not_mem_nil
    · rintro ⟨rfl, direct⟩
      rw [isPlaylist] at direct
      cases direct
  · rw [Site.entries, Resolution.entries, builtIn.expand_other get isPlaylist]
    cases found : registry.find? url with
    | none =>
      refine iff_of_false List.not_mem_nil ?_
      rintro ⟨rfl, direct⟩
      rw [found] at direct
      cases direct
    | some handler =>
      rcases builtIn handler (List.mem_of_find?_eq_some found) with playlist | direct
      · rw [playlist] at found
        exact absurd found isPlaylist
      · rw [direct] at found
        simp only [Option.isSome_some, if_true, List.mem_singleton, Entry.file.injEq]
        constructor
        · rintro rfl
          exact ⟨rfl, found⟩
        · exact fun both => both.1.symm

theorem BuiltIn.reachesFile_iff (builtIn : registry.BuiltIn) (get : Url → Exchange) {file : Url} :
    (registry.siteBy get).ReachesFile root file ↔
      (registry.siteBy get).Reaches root file ∧ registry.find? file = some .direct := by
  simp only [Site.ReachesFile, builtIn.file_mem_entries_iff]
  constructor
  · rintro ⟨_, reach, rfl, direct⟩
    exact ⟨reach, direct⟩
  · rintro ⟨reach, direct⟩
    exact ⟨file, reach, rfl, direct⟩

theorem BuiltIn.served_of_reachesFile (builtIn : registry.BuiltIn) {file : Url}
    (served : root.Served) (reaches : (registry.siteBy get).ReachesFile root file) :
    file.Served := by
  obtain ⟨reach, direct⟩ := (builtIn.reachesFile_iff get).mp reaches
  exact builtIn.served_of_reaches served reach (builtIn.claims direct).1

/-- A file that built-in handlers lead to has a name of its own. -/
theorem BuiltIn.isPlain_of_reachesFile (builtIn : registry.BuiltIn) {file : Url}
    (served : root.Served) (reaches : (registry.siteBy get).ReachesFile root file) :
    Path.IsPlain (DownloadSettings.segmentOf file) := by
  obtain ⟨_, direct⟩ := (builtIn.reachesFile_iff get).mp reaches
  exact (builtIn.served_of_reachesFile served reaches).isPlain (builtIn.claims direct).2

end Registry
end BatchFetch
