import BatchFetch.Proofs.CommandLine.Shortcuts
import BatchFetch.Proofs.Job.FileNames

namespace BatchFetch

theorem Text.toLower_eq_self_iff {c : Char} : c.toLower = c ↔ c.isUpper = false := by
  by_cases upper : 'A'.val ≤ c.val ∧ c.val ≤ 'Z'.val
  · have isUpper : c.isUpper = true := decide_eq_true upper
    have moved : c.toLower.val = c.val + ('a'.val - 'A'.val) := congrArg Char.val (dif_pos upper)
    refine iff_of_false (fun same => ?_) (ne_of_eq_of_ne isUpper (by decide))
    rw [same] at moved
    exact absurd (UInt32.add_eq_left.mp moved.symm) (by decide)
  · exact iff_of_true (dif_neg upper) (decide_eq_false upper)

theorem Text.asciiLower_eq_self_iff {s : String} :
    asciiLower s = s ↔ ∀ c ∈ s.toList, c.isUpper = false := by
  have each : s.toList.map Char.toLower = s.toList.map id ↔ ∀ c ∈ s.toList, c.toLower = id c :=
    List.map_inj_left
  rw [List.map_id] at each
  simp only [asciiLower, ← String.toList_inj, String.toList_ofList, each, id,
    toLower_eq_self_iff]

theorem Path.join_right_inj {name other : String} (relative : isAbsolute name = false)
    (relativeToo : isAbsolute other = false) (base : String) :
    join base name = join base other ↔ name = other := by
  rw [join, join, relative, relativeToo, if_neg Bool.false_ne_true, if_neg Bool.false_ne_true]
  split_ifs
  · exact String.append_right_inj base
  · exact String.append_right_inj (base ++ "/")

namespace DownloadSettings

/-- The template that asks for the original name puts the two parts of a name together. -/
theorem renderName_original {stem : String} (plain : Text.NoBraces stem.toList) (extension : String) :
    renderName (Arguments.filenameTemplate "/O") stem extension = stem ++ "." ++ extension := by
  have areValues : Text.AreValues [("filename".toList, stem.toList)] :=
    Text.areValues_singleton (by decide) stem.toList
  have template : (Arguments.filenameTemplate "/O").toList =
      Text.braced "filename".toList ++ '.' :: Text.braced "extension".toList := by decide
  have other : ¬ Text.braced "filename".toList <:+: '.' :: Text.braced "extension".toList := by decide
  have unfilled : Text.fillIn [("filename".toList, stem.toList)]
      ('.' :: Text.braced "extension".toList) = '.' :: Text.braced "extension".toList :=
    Text.fillIn_eq_self fun entry member => List.mem_singleton.mp member ▸ other
  have kept : Text.replaceAll (Text.braced "extension".toList) extension.toList stem.toList =
      stem.toList := by
    rw [Text.replaceAll_eq_fillIn (by decide), Text.fillIn_of_plain plain.1]
  have filled : Text.replaceAll (Text.braced "extension".toList) extension.toList
      (Text.braced "extension".toList) = extension.toList := by
    have whole := Text.replaceAll_word (by decide : Text.braced "extension".toList ≠ [])
      extension.toList []
    rwa [List.append_nil, Text.replaceAll, List.append_nil] at whole
  rw [← String.toList_inj, toList_renderName, template,
    areValues.fillIn_braced (List.mem_singleton_self _), unfilled,
    Text.replaceAll_append_sep (by decide) (by decide), kept, filled]
  simp

/-- A name is no absolute path. -/
theorem AreParts.relative {stem extension : String} (parts : AreParts stem extension) :
    Path.isAbsolute (stem ++ "." ++ extension) = false := by
  have noSlash := parts.stemIsSegment '/' (by decide)
  have noSlashBehind := parts.extensionIsSegment '/' (by decide)
  refine Path.relative_of_noSlash ?_
  rw [String.toList_append, String.toList_append, List.mem_append, List.mem_append]
  exact not_or.mpr ⟨not_or.mpr ⟨noSlash, by decide⟩, noSlashBehind⟩

/-- The template that the command line stores when it asks for original names puts a file where it is
without a template, if and only if the extension of the file has no capital letters. Any that it has
are made small. -/
theorem destination_original_iff {url : Url} (read : url.IsRead)
    (claimed : Handler.direct.claims url = true) {arguments : Arguments}
    (asked : arguments.filename = some "/O")
    (free : ∀ setting ∈ arguments.settings,
      ¬(setting.sectionName = globalSection ∧ setting.key = "filename"))
    (store : Store) (settings : DownloadSettings) :
    ∃ template stem extension : String,
      (store.setAll arguments.overrides).getGlobal? "filename" = some (.str template) ∧
      url.lastSegment? = some (stem ++ "." ++ extension) ∧ stem ≠ "" ∧ '.' ∉ extension.toList ∧
      settings.withoutTemplate.destination url =
        Path.join settings.baseDirectory (stem ++ "." ++ extension) ∧
      (settings.withTemplate template).destination url =
        Path.join settings.baseDirectory (stem ++ "." ++ Text.asciiLower extension) ∧
      ((settings.withTemplate template).destination url = settings.withoutTemplate.destination url ↔
        ∀ c ∈ extension.toList, c.isUpper = false) := by
  obtain ⟨stem, extension, last, parts, parted, extended⟩ := exists_areParts read claimed
  have stored : (store.setAll arguments.overrides).getGlobal? "filename" =
      some (.str (Arguments.filenameTemplate "/O")) := by
    rw [Store.getGlobal?, Store.get?_setAll, Arguments.last?_overrides, Setting.last?_eq_none free,
      Arguments.shortcut?, asked]
    rfl
  have named : segmentOf url = stem ++ "." ++ extension :=
    Option.some.inj ((Url.lastSegment?_of_extension (by rw [extended]; rfl)).symm.trans last)
  have original : settings.withoutTemplate.destination url =
      Path.join settings.baseDirectory (stem ++ "." ++ extension) :=
    named ▸ Download.destination_of_unnamed rfl url
  have renamed := destination_of_parts parted extended settings (Arguments.filenameTemplate "/O")
  rw [renderName_original parts.noBraces] at renamed
  refine ⟨_, stem, extension, stored, last, parts.stemSome, parts.noDot, original, renamed, ?_⟩
  rw [original, renamed, Path.join_right_inj parts.asciiLower.relative parts.relative,
    String.append_right_inj, Text.asciiLower_eq_self_iff]

theorem destination_original_iff_photo :
    ∃ url, Url.parse "http://h/my%20photo.v2.jpg" = .ok url ∧ Handler.direct.claims url = true ∧
      let arguments : Arguments :=
        { filename := some "/O", settings := [⟨"output", "filename", .str "x"⟩] }
      (∀ setting ∈ arguments.settings,
        ¬(setting.sectionName = globalSection ∧ setting.key = "filename")) ∧
      ∃ template : String,
        (Store.empty.setAll arguments.overrides).getGlobal? "filename" = some (.str template) ∧
        (({} : DownloadSettings).withTemplate template).destination url = "./my%20photo.v2.jpg" := by
  let url : Url :=
    { scheme := "http", authority := some { host := .name "h" }
      route := .segments ["my%20photo.v2.jpg"] }
  have read : Url.parse "http://h/my%20photo.v2.jpg" = .ok url := by decide +kernel
  have claimed : Handler.direct.claims url = true := by decide +kernel
  have free : ∀ setting ∈ [(⟨"output", "filename", .str "x"⟩ : Setting)],
      ¬(setting.sectionName = globalSection ∧ setting.key = "filename") := by decide +kernel
  obtain ⟨template, stem, extension, stored, last, _, _, _, _, same⟩ :=
    destination_original_iff (.parse read) claimed
      (rfl : ({ filename := some "/O", settings := [⟨"output", "filename", .str "x"⟩] } :
        Arguments).filename = some "/O") free .empty {}
  have whole : url.lastSegment? = some "my%20photo.v2.jpg" := by decide +kernel
  have lower : Text.asciiLower "my%20photo.v2.jpg" = "my%20photo.v2.jpg" := by decide +kernel
  have small := Text.asciiLower_eq_self_iff.mp lower
  rw [← Option.some.inj (last.symm.trans whole), String.toList_append] at small
  exact ⟨url, read, claimed, free, template, stored,
    (same.mpr fun c member => small c (List.mem_append_right _ member)).trans (by decide +kernel)⟩

/-- A file keeps its name, but not the capital letters of its extension. -/
theorem destination_original_lost :
    ∃ url, Url.parse "http://h/cat.JPG" = .ok url ∧ Handler.direct.claims url = true ∧
      let arguments : Arguments := { filename := some "/O" }
      let settings : DownloadSettings := {}
      settings.withoutTemplate.destination url = "./cat.JPG" ∧
      ∀ template,
        (Store.empty.setAll arguments.overrides).getGlobal? "filename" = some (.str template) →
        (settings.withTemplate template).destination url = "./cat.jpg" ∧
        (settings.withTemplate template).destination url ≠
          settings.withoutTemplate.destination url := by
  let url : Url :=
    { scheme := "http", authority := some { host := .name "h" }, route := .segments ["cat.JPG"] }
  refine ⟨url, by decide +kernel, by decide +kernel, by decide +kernel, fun template stored => ?_⟩
  have written : (Store.empty.setAll ({ filename := some "/O" } : Arguments).overrides).getGlobal?
      "filename" = some (.str "\x7bfilename\x7d.\x7bextension\x7d") := by decide +kernel
  cases stored.symm.trans written
  decide +kernel

end DownloadSettings
end BatchFetch
