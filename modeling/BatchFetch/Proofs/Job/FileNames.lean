import BatchFetch.Proofs.Job.Targets
import BatchFetch.Proofs.Text.Refilling

namespace BatchFetch

/-- A character that is no small letter is the lower case of no other one. -/
theorem Text.eq_of_toLower_eq {c d : Char} (noLetter : c.val < 'a'.val ∨ 'z'.val < c.val)
    (lower : d.toLower = c) : d = c := by
  unfold Char.toLower at lower
  split at lower
  · rename_i upper
    have shifted := congrArg Char.val lower
    grind
  · exact lower

theorem Text.not_mem_asciiLower {c : Char} (noLetter : c.val < 'a'.val ∨ 'z'.val < c.val) {s : String}
    (absent : c ∉ s.toList) : c ∉ (asciiLower s).toList := by
  rw [asciiLower, String.toList_ofList]
  intro member
  obtain ⟨d, inText, lower⟩ := List.mem_map.mp member
  exact absent (eq_of_toLower_eq noLetter lower ▸ inText)

theorem Text.asciiLower_eq_empty_iff {s : String} : asciiLower s = "" ↔ s = "" := by
  rw [asciiLower, String.ofList_eq_empty_iff, List.map_eq_nil_iff, String.toList_eq_nil_iff]

theorem Text.noBraces_asciiLower {s : String} (plain : NoBraces s.toList) :
    NoBraces (asciiLower s).toList :=
  ⟨not_mem_asciiLower (by decide) plain.1, not_mem_asciiLower (by decide) plain.2⟩

namespace Url

/-- A URL with an extension, in parts. -/
theorem exists_parts {url : Url} (extended : url.extension?.isSome = true) :
    ∃ stem extension : String, url.lastSegment? = some (stem ++ "." ++ extension) ∧ stem ≠ "" ∧
      '.' ∉ extension.toList ∧
      splitName (DownloadSettings.segmentOf url) = some (stem, extension) ∧
      url.extension? = some (Text.asciiLower extension) := by
  obtain ⟨segment, stem, extension, last, shape, stemSome, extensionSome, noDot⟩ :=
    exists_stem extended
  have whole : segment = String.ofList stem ++ "." ++ String.ofList extension := by
    rw [← String.toList_inj, shape]
    simp
  have parted : splitName segment = some (String.ofList stem, String.ofList extension) := by
    rw [splitName, Text.cutLast_eq_some_iff.mpr ⟨shape, noDot⟩, Option.map_some]
  have named := Option.some.inj ((lastSegment?_of_extension extended).symm.trans last)
  refine ⟨String.ofList stem, String.ofList extension, whole ▸ last, ?_, ?_, named ▸ parted, ?_⟩
  · rwa [ne_eq, String.ofList_eq_empty_iff]
  · rwa [String.toList_ofList]
  · rw [extension?, last, Option.bind_some, parted]
    simp [stemSome, extensionSome]

theorem extension?_ne_empty (url : Url) : url.extension? ≠ some "" := by
  rw [extension?]
  split
  · exact (Option.some_ne_none "").symm
  · rename_i stem extension _
    split_ifs with empty
    · exact (Option.some_ne_none "").symm
    · rw [Bool.or_eq_true, not_or, String.isEmpty_iff, String.isEmpty_iff] at empty
      rw [ne_eq, Option.some.injEq, Text.asciiLower_eq_empty_iff]
      exact empty.2

end Url

namespace DownloadSettings

/-- What the placeholders of a file name template stand for. -/
def nameValues (stem extension : String) : List (List Char × List Char) :=
  [("filename".toList, stem.toList), ("extension".toList, extension.toList)]

/-- A stem completes a placeholder if the template has a text in braces that becomes the other name
when the stem is filled in. -/
def StemCompletes (stem template : String) : Prop :=
  Text.Completes [("filename".toList, stem.toList)] "extension".toList template.toList

theorem areValues_nameValues (stem extension : String) :
    Text.AreValues (nameValues stem extension) :=
  have names : (nameValues stem extension).map Prod.fst = ["filename", "extension"].map String.toList :=
    rfl
  Text.areValues_of_names names (by decide) (by decide)

theorem toList_renderName (template stem extension : String) :
    (renderName template stem extension).toList =
      Text.replaceAll (Text.braced "extension".toList) extension.toList
        (Text.fillIn [("filename".toList, stem.toList)] template.toList) := by
  rw [← Text.replaceAll_eq_fillIn (by decide) stem.toList template.toList]
  simp only [renderName, Text.replaced, String.toList_ofList]
  rfl

/-- Filling in the stem and then the extension makes what one pass makes, if and only if the stem
completes no placeholder. -/
theorem renderName_eq_iff {stem extension : String} (plain : Text.NoBraces stem.toList)
    (plainToo : Text.NoBraces extension.toList) (template : String) :
    renderName template stem extension =
        String.ofList (Text.fillIn (nameValues stem extension) template.toList) ↔
      ¬ StemCompletes stem template := by
  have areValues : Text.AreValues ([("filename".toList, stem.toList)] ++
    [("extension".toList, extension.toList)]) := areValues_nameValues stem extension
  have bare : ∀ entry ∈ [("filename".toList, stem.toList)], Text.NoBraces entry.2 :=
    fun entry member => List.mem_singleton.mp member ▸ plain
  rw [← String.toList_inj, String.toList_ofList, toList_renderName]
  exact (areValues.comesAfter bare).replaceAll_fillIn_eq_iff plainToo.1 template.toList

/-- The settings with a template for the names of files. -/
def withTemplate (settings : DownloadSettings) (template : String) : DownloadSettings :=
  { settings with filename := some template }

/-- The settings with no template: files keep the names that they have in their URLs. -/
def withoutTemplate (settings : DownloadSettings) : DownloadSettings :=
  { settings with filename := none }

theorem fileName_of_parts {url : Url} {stem extension template : String} {settings : DownloadSettings}
    (parted : Url.splitName (segmentOf url) = some (stem, extension))
    (extended : url.extension? = some (Text.asciiLower extension))
    (named : settings.filename = some template) :
    settings.fileName url = renderName template stem (Text.asciiLower extension) := by
  simp only [fileName, named, parted, extended, Option.map_some, Option.getD_some]

theorem destination_of_parts {url : Url} {stem extension : String}
    (parted : Url.splitName (segmentOf url) = some (stem, extension))
    (extended : url.extension? = some (Text.asciiLower extension)) (settings : DownloadSettings)
    (template : String) :
    (settings.withTemplate template).destination url =
      Path.join settings.baseDirectory (renderName template stem (Text.asciiLower extension)) := by
  rw [destination, fileName_of_parts parted extended rfl]
  rfl

/-- What is known of the two parts of a name with an extension. -/
structure AreParts (stem extension : String) : Prop where
  stemSome : stem ≠ ""
  extensionSome : extension ≠ ""
  noDot : '.' ∉ extension.toList
  stemIsSegment : Url.IsSegment stem
  extensionIsSegment : Url.IsSegment extension

theorem AreParts.asciiLower {stem extension : String} (parts : AreParts stem extension) :
    AreParts stem (Text.asciiLower extension) where
  stemSome := parts.stemSome
  extensionSome := mt Text.asciiLower_eq_empty_iff.mp parts.extensionSome
  noDot := Text.not_mem_asciiLower (by decide) parts.noDot
  stemIsSegment := parts.stemIsSegment
  extensionIsSegment := by
    intro c excluded
    have noLetters : (Url.notInSegments.all fun c => c.val < 'a'.val ∨ 'z'.val < c.val) = true := by
      decide
    have noLetter := of_decide_eq_true (List.all_eq_true.mp noLetters c excluded)
    exact Text.not_mem_asciiLower noLetter (parts.extensionIsSegment c excluded)

theorem AreParts.noBraces {stem extension : String} (parts : AreParts stem extension) :
    Text.NoBraces stem.toList :=
  ⟨parts.stemIsSegment _ (by decide), parts.stemIsSegment _ (by decide)⟩

/-- The last segment of a URL that is read and claimed, in parts. -/
theorem exists_areParts {url : Url} (read : url.IsRead)
    (claimed : Handler.direct.claims url = true) :
    ∃ stem extension : String, url.lastSegment? = some (stem ++ "." ++ extension) ∧
      AreParts stem extension ∧ Url.splitName (segmentOf url) = some (stem, extension) ∧
      url.extension? = some (Text.asciiLower extension) := by
  rw [Handler.claims, Bool.and_eq_true] at claimed
  obtain ⟨stem, extension, last, stemSome, noDot, parted, extended⟩ := Url.exists_parts claimed.2
  have extensionSome : extension ≠ "" := by
    rintro rfl
    exact url.extension?_ne_empty extended
  have isSegment := (read.served claimed.1).isSegment last
  rw [Url.isSegment_append, Url.isSegment_append] at isSegment
  exact ⟨stem, extension, last,
    ⟨stemSome, extensionSome, noDot, isSegment.1.1, isSegment.2⟩, parted, extended⟩

/-- The name that a template gives to a file under the base directory is the template with its
placeholders filled in by one pass, if and only if the stem completes no placeholder. Everything else
that the URL puts into the name stays as it is. -/
theorem fileName_single_pass_iff {url : Url} (read : url.IsRead)
    (claimed : Handler.direct.claims url = true) {settings : DownloadSettings} {template : String}
    (named : settings.filename = some template) :
    ∃ stem extension : String, url.lastSegment? = some (stem ++ "." ++ extension) ∧ stem ≠ "" ∧
      '.' ∉ extension.toList ∧
      settings.destination url = Path.join settings.baseDirectory (settings.fileName url) ∧
      (settings.fileName url = String.ofList
          (Text.fillIn (nameValues stem (Text.asciiLower extension)) template.toList) ↔
        ¬ StemCompletes stem template) := by
  rw [Handler.claims, Bool.and_eq_true] at claimed
  obtain ⟨stem, extension, last, some, noDot, parted, extended⟩ := Url.exists_parts claimed.2
  have isSegment := (read.served claimed.1).isSegment last
  have plain : Text.NoBraces (stem ++ "." ++ extension).toList :=
    ⟨isSegment _ (by decide), isSegment _ (by decide)⟩
  rw [String.toList_append, String.toList_append] at plain
  have stemPlain : Text.NoBraces stem.toList := plain.of_append.1.of_append.1
  refine ⟨stem, extension, last, some, noDot, rfl, ?_⟩
  rw [fileName_of_parts parted extended named]
  exact renderName_eq_iff stemPlain (Text.noBraces_asciiLower plain.of_append.2) template

theorem fileName_single_pass_iff_song :
    ∃ url, Url.parse "http://h/song.MP3" = .ok url ∧ Handler.direct.claims url = true ∧
      let settings : DownloadSettings := { filename := some "\x7bfilename\x7d_copy.\x7bextension\x7d" }
      settings.fileName url = "song_copy.mp3" ∧
      ∃ stem extension : String, url.lastSegment? = some (stem ++ "." ++ extension) ∧ stem ≠ "" ∧
        '.' ∉ extension.toList ∧ settings.destination url = Path.join "." (settings.fileName url) ∧
        (settings.fileName url = String.ofList (Text.fillIn
            (nameValues stem (Text.asciiLower extension))
            "\x7bfilename\x7d_copy.\x7bextension\x7d".toList) ↔
          ¬ StemCompletes stem "\x7bfilename\x7d_copy.\x7bextension\x7d") := by
  let url : Url :=
    { scheme := "http", authority := some { host := .name "h" }, route := .segments ["song.MP3"] }
  have read : Url.parse "http://h/song.MP3" = .ok url := by decide +kernel
  have claimed : Handler.direct.claims url = true := by decide +kernel
  exact ⟨url, read, claimed, by decide +kernel, fileName_single_pass_iff (.parse read) claimed rfl⟩

/-- The extension comes in place of a placeholder that the template does not have: the stem has
completed it. -/
theorem fileName_ension_completed :
    ∃ url, Url.parse "http://h/ension.jpg" = .ok url ∧ Handler.direct.claims url = true ∧
      url.lastSegment? = some "ension.jpg" ∧
      let settings : DownloadSettings := { filename := some "\x7bext\x7bfilename\x7d\x7d" }
      settings.fileName url = "jpg" ∧ settings.destination url = "./jpg" ∧
      String.ofList (Text.fillIn (nameValues "ension" "jpg") "\x7bext\x7bfilename\x7d\x7d".toList) =
        "\x7bextension\x7d" ∧
      settings.fileName url ≠ String.ofList (Text.fillIn (nameValues "ension" "jpg")
        "\x7bext\x7bfilename\x7d\x7d".toList) := by
  let url : Url :=
    { scheme := "http", authority := some { host := .name "h" }, route := .segments ["ension.jpg"] }
  exact ⟨url, by decide +kernel, by decide +kernel, by decide +kernel, by decide +kernel,
    by decide +kernel, by decide +kernel, by decide +kernel⟩

end DownloadSettings
end BatchFetch
