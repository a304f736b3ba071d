import BatchFetch.Proofs.Files.Resolving
import BatchFetch.Proofs.Job.FileNames
import Mathlib.Data.List.Sublists

namespace BatchFetch

theorem Path.pieces_replaced {word value : String} (absent : '/' ∉ word.toList) (some : word ≠ "")
    (absentToo : '/' ∉ value.toList) (path : String) :
    pieces (Text.replaced path word value) =
      (pieces path).map fun piece => Text.replaced piece word value := by
  rw [pieces, Text.replaced, String.toList_ofList,
    Text.pieces_replaceAll absent (mt String.toList_eq_nil_iff.mp some) absentToo, pieces,
    List.map_map, List.map_map]
  simp only [Function.comp_def, Text.replaced, String.toList_ofList]

namespace DownloadSettings

namespace AreParts

variable {stem extension : String} (parts : AreParts stem extension)
include parts

/-- The pieces of a name are those of its template, each filled in by itself. -/
theorem pieces_renderName (template : String) :
    Path.pieces (renderName template stem extension) =
      (Path.pieces template).map fun piece => renderName piece stem extension := by
  have noSlash := parts.stemIsSegment '/' (by decide)
  have noSlashBehind := parts.extensionIsSegment '/' (by decide)
  unfold renderName
  rw [Path.pieces_replaced (by decide) (by decide) noSlashBehind,
    Path.pieces_replaced (by decide) (by decide) noSlash, List.map_map]
  rfl

/-- A name of nothing but dots has the stem in it, unless it is the template. -/
theorem stem_infix_of_dots {template : String}
    (changed : renderName template stem extension ≠ template)
    (dots : ∀ c ∈ (renderName template stem extension).toList, c = '.') :
    stem.toList <:+: (renderName template stem extension).toList := by
  have whole := toList_renderName template stem extension
  rw [Text.replaceAll_eq_fillIn (by decide)] at whole
  -- an extension that came in would bring another character
  have unfilled : (renderName template stem extension).toList =
      Text.fillIn [("filename".toList, stem.toList)] template.toList := by
    by_contra differs
    rw [whole] at differs
    obtain ⟨entry, member, inside⟩ :=
      (Text.areValues_singleton (by decide) extension.toList).exists_value differs
    rw [List.mem_singleton.mp member, ← whole] at inside
    obtain ⟨c, rest, shape⟩ :=
      List.exists_cons_of_ne_nil (mt String.toList_eq_nil_iff.mp parts.extensionSome)
    have first : c ∈ extension.toList := shape ▸ List.mem_cons_self
    exact parts.noDot (dots c (inside.subset first) ▸ first)
  rw [ne_eq, ← String.toList_inj, unfilled] at changed
  obtain ⟨entry, member, inside⟩ :=
    (Text.areValues_singleton (by decide) stem.toList).exists_value changed
  rw [List.mem_singleton.mp member] at inside
  rwa [unfilled]

/-- What a URL fills in does not make a relative path absolute. -/
theorem relative_renderName {template : String} (relative : Path.isAbsolute template = false) :
    Path.isAbsolute (renderName template stem extension) = false := by
  rw [← Bool.not_eq_true, Path.isAbsolute_iff] at relative ⊢
  rintro ⟨second, rest, cut⟩
  rw [parts.pieces_renderName] at cut
  obtain ⟨piece, more, shape, filled, others⟩ := List.map_eq_cons_iff.mp cut
  obtain ⟨next, last, rfl, _⟩ := List.map_eq_cons_iff.mp others
  refine relative ⟨next, last, ?_⟩
  rw [shape]
  refine congrArg (· :: next :: last) ?_
  by_contra changed
  have part := parts.stem_infix_of_dots (filled ▸ Ne.symm changed) fun c member => by
    rw [filled] at member
    cases member
  rw [filled] at part
  exact parts.stemSome (String.toList_eq_nil_iff.mp (List.infix_nil.mp part))

/-- Only a stem that is no name itself makes a piece that is none. -/
theorem renderName_eq_of_infix_dots (steady : stem ≠ "." ∧ stem ≠ "..") {piece : String}
    (dots : (renderName piece stem extension).toList <:+: "..".toList) :
    renderName piece stem extension = piece := by
  by_contra changed
  have part := parts.stem_infix_of_dots changed fun c member => by
    simpa using dots.subset member
  have short : stem.toList ∈ ["".toList, ".".toList, ".".toList, "..".toList] :=
    List.mem_sublists.mpr (part.trans dots).sublist
  simp only [List.mem_cons, String.toList_inj, List.not_mem_nil, or_false] at short
  rcases short with empty | dot | dot | up
  · exact parts.stemSome empty
  · exact steady.1 dot
  · exact steady.1 dot
  · exact steady.2 up

theorem isIdle_renderName (steady : stem ≠ "." ∧ stem ≠ "..") (piece : String) :
    Path.isIdle (renderName piece stem extension) = Path.isIdle piece := by
  have idle_iff (name : String) : Path.isIdle name = true ↔ name = "" ∨ name = "." := by
    rw [Path.isIdle, Bool.or_eq_true, String.isEmpty_iff, beq_iff_eq]
  rw [Bool.eq_iff_iff]
  constructor
  · intro idle
    have dots : (renderName piece stem extension).toList <:+: "..".toList := by
      rcases (idle_iff _).mp idle with empty | dot
      · rw [empty]; decide
      · rw [dot]; decide
    rwa [parts.renderName_eq_of_infix_dots steady dots] at idle
  · intro idle
    have noBrace : '\x7b' ∉ piece.toList := by
      rcases (idle_iff piece).mp idle with rfl | rfl <;> decide
    have same : renderName piece stem extension = piece := by
      rw [← String.toList_inj, toList_renderName, Text.fillIn_of_plain noBrace,
        Text.replaceAll_eq_fillIn (by decide), Text.fillIn_of_plain noBrace]
    rwa [same]

/-- A name has as many components as its template. -/
theorem components_renderName (steady : stem ≠ "." ∧ stem ≠ "..") (template : String) :
    Path.components (renderName template stem extension) =
      (Path.components template).map fun piece => renderName piece stem extension := by
  rw [Path.components, parts.pieces_renderName, List.filter_map, Path.components]
  simp only [Function.comp_def, parts.isIdle_renderName steady]

theorem up_of_renderName (steady : stem ≠ "." ∧ stem ≠ "..") {template : String}
    (up : ".." ∈ Path.pieces (renderName template stem extension)) : ".." ∈ Path.pieces template := by
  rw [parts.pieces_renderName] at up
  obtain ⟨piece, member, filled⟩ := List.mem_map.mp up
  have same : renderName piece stem extension = piece :=
    parts.renderName_eq_of_infix_dots steady (filled ▸ List.infix_rfl)
  rwa [← filled, same]

/-- With a stem that is a name, a file is stored below the base directory wherever its template names
something there. -/
theorem strictlyBelow_renderName_iff (steady : stem ≠ "." ∧ stem ≠ "..") {template : String}
    (relative : Path.isAbsolute template = false) (noUp : ".." ∉ Path.pieces template)
    (base : String) :
    Path.StrictlyBelow (Path.join base (renderName template stem extension)) base ↔
      Path.components template ≠ [] := by
  rw [Path.strictlyBelow_join_iff (parts.relative_renderName relative)
    (mt (parts.up_of_renderName steady) noUp), parts.components_renderName steady, ne_eq,
    List.map_eq_nil_iff]

end AreParts

/-- A template that asks for the stem alone gives it. -/
theorem renderName_stem {stem : String} (bare : Text.NoBraces stem.toList) (extension : String) :
    renderName "\x7bfilename\x7d" stem extension = stem := by
  have areValues : Text.AreValues [("filename".toList, stem.toList)] :=
    Text.areValues_singleton (by decide) stem.toList
  have filled := areValues.fillIn_braced (List.mem_singleton_self _) []
  rw [Text.fillIn_nil, List.append_nil, List.append_nil] at filled
  have whole : "\x7bfilename\x7d".toList = Text.braced "filename".toList := by decide
  rw [← String.toList_inj, toList_renderName, whole, filled,
    Text.replaceAll_eq_fillIn (by decide), Text.fillIn_of_plain bare.1]

/-- That template is steered out of the directory by a stem of one or two dots. -/
theorem not_strictlyBelow_stem {stem : String} (dots : stem = "." ∨ stem = "..")
    (extension base : String) :
    ¬ Path.StrictlyBelow (Path.join base (renderName "\x7bfilename\x7d" stem extension)) base := by
  rcases dots with rfl | rfl
  · rw [renderName_stem (by decide), Path.strictlyBelow_join_iff (by decide) (by decide)]
    exact fun some => some (by decide)
  · rw [renderName_stem (by decide)]
    exact Path.not_strictlyBelow_up base

/-- Without a template, the name that a file has in its URL keeps it below the base directory. -/
theorem strictlyBelow_withoutTemplate {url : Url} (read : url.IsRead)
    (claimed : Handler.direct.claims url = true) (settings : DownloadSettings) :
    Path.StrictlyBelow (settings.withoutTemplate.destination url) settings.baseDirectory := by
  rw [Handler.claims, Bool.and_eq_true] at claimed
  have plain := (read.served claimed.1).isPlain claimed.2
  have single := Path.pieces_of_no_slash plain.noSlash
  have noUp : ".." ∉ Path.pieces (segmentOf url) := by
    rw [single, List.mem_singleton]
    exact plain.notUp.symm
  have named : Path.components (segmentOf url) ≠ [] := by
    rw [Path.components, single, List.filter_cons_of_pos (by rw [plain.notIdle]; rfl)]
    exact List.cons_ne_nil _ _
  rw [Download.destination_of_unnamed rfl]
  exact (Path.strictlyBelow_join_iff plain.relative noUp settings.baseDirectory).mpr named

/-- A URL makes no relative template absolute, and no name without two dots leads out of the base
directory. Relative templates without two dots are all safe from a URL, and store its file below the
base directory if they name anything, if and only if the stem of the URL is no dot and not two. -/
theorem destination_strictly_below_iff {url : Url} (read : url.IsRead)
    (claimed : Handler.direct.claims url = true) (settings : DownloadSettings) :
    ∃ stem extension : String, url.lastSegment? = some (stem ++ "." ++ extension) ∧ stem ≠ "" ∧
      '.' ∉ extension.toList ∧
      (∀ template, Path.isAbsolute template = false →
        Path.isAbsolute ((settings.withTemplate template).fileName url) = false ∧
        (".." ∉ Path.pieces ((settings.withTemplate template).fileName url) →
          (Path.StrictlyBelow ((settings.withTemplate template).destination url)
              settings.baseDirectory ↔
            Path.components ((settings.withTemplate template).fileName url) ≠ []))) ∧
      ((∀ template, Path.isAbsolute template = false → ".." ∉ Path.pieces template →
        (Path.StrictlyBelow ((settings.withTemplate template).destination url)
          settings.baseDirectory ↔ Path.components template ≠ [])) ↔ stem ≠ "." ∧ stem ≠ "..") := by
  obtain ⟨stem, extension, last, whole, parted, extended⟩ := exists_areParts read claimed
  have parts := whole.asciiLower
  refine ⟨stem, extension, last, whole.stemSome, whole.noDot, fun template relative => ?_, ?_, ?_⟩
  · have named := parts.relative_renderName relative
    rw [fileName_of_parts parted extended rfl]
    refine ⟨named, fun noUp => ?_⟩
    rw [destination_of_parts parted extended]
    exact Path.strictlyBelow_join_iff named noUp settings.baseDirectory
  · intro safe
    rw [← not_or]
    intro dots
    have steered := not_strictlyBelow_stem dots (Text.asciiLower extension) settings.baseDirectory
    rw [← destination_of_parts parted extended settings] at steered
    exact steered ((safe _ (by decide) (by decide)).mpr (by decide))
  · intro steady template relative noUp
    rw [destination_of_parts parted extended]
    exact parts.strictlyBelow_renderName_iff steady relative noUp settings.baseDirectory

theorem destination_strictly_below_iff_cat :
    ∃ url, Url.parse "http://h/..cat.JPG" = .ok url ∧ Handler.direct.claims url = true ∧
      let settings : DownloadSettings := { baseDirectory := "../out" }
      let placed := settings.withTemplate "\x7bextension\x7d/\x7bfilename\x7d.\x7bextension\x7d"
      placed.destination url = "../out/jpg/..cat.jpg" ∧
        Path.StrictlyBelow (placed.destination url) "../out" := by
  let url : Url :=
    { scheme := "http", authority := some { host := .name "h" }, route := .segments ["..cat.JPG"] }
  have read : Url.parse "http://h/..cat.JPG" = .ok url := by decide +kernel
  have claimed : Handler.direct.claims url = true := by decide +kernel
  obtain ⟨_, _, _, _, _, each, _⟩ :=
    destination_strictly_below_iff (.parse read) claimed { baseDirectory := "../out" }
  exact ⟨url, read, claimed, by decide +kernel,
    ((each _ (by decide)).2 (by decide +kernel)).mpr (by decide +kernel)⟩

/-- Two dots in front of the extension lead out of the directory, through a template without a
dot in it. -/
theorem destination_steered_out :
    ∃ url, Url.parse "http://h/...jpg" = .ok url ∧ Handler.direct.claims url = true ∧
      let template := "\x7bfilename\x7d/\x7bextension\x7d"
      Path.isAbsolute template = false ∧ ".." ∉ Path.pieces template ∧
      let settings : DownloadSettings := { baseDirectory := "out" }
      (settings.withTemplate template).destination url = "out/../jpg" ∧
        Path.resolved "out/../jpg" = ["jpg"] ∧
        ¬ Path.StrictlyBelow ((settings.withTemplate template).destination url) "out" := by
  let url : Url :=
    { scheme := "http", authority := some { host := .name "h" }, route := .segments ["...jpg"] }
  refine ⟨url, by decide +kernel, by decide +kernel, by decide, by decide, by decide +kernel,
    by decide +kernel, ?_⟩
  rintro ⟨_, below, names, _⟩
  have resolved : ["jpg"] = ["out"] ++ below := by
    have left : Path.resolved (({ baseDirectory := "out" : DownloadSettings }.withTemplate
      "\x7bfilename\x7d/\x7bextension\x7d").destination url) = ["jpg"] := by decide +kernel
    have right : Path.resolved "out" = ["out"] := by decide +kernel
    rwa [left, right] at names
  exact absurd (List.cons.inj resolved).1 (by decide)

end DownloadSettings
end BatchFetch
