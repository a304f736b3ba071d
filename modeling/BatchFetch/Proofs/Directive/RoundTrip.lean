import BatchFetch.Proofs.Directive.Reading
import BatchFetch.Proofs.Json.Printer

namespace BatchFetch.Directive

/-- The name that a directive is written with. -/
def writtenName (d : Directive) : String :=
  if d.sectionName = globalSection then d.key else d.sectionName ++ ":" ++ d.key

theorem toList_text (d : Directive) :
    d.text.toList = (lead d.scope).toList ++ (d.writtenName.toList ++ '=' :: d.value.text) := by
  have equals : "=".toList = ['='] := rfl
  unfold text writtenName
  rw [String.toList_append, String.toList_append, String.toList_append, equals, Json.render,
    String.toList_ofList, List.append_assoc, List.append_assoc, List.singleton_append]

theorem writtenName_of_global {d : Directive} (global : d.sectionName = globalSection) :
    d.writtenName = d.key := if_pos global

theorem writtenName_of_section {d : Directive} (named : d.sectionName ≠ globalSection) :
    d.writtenName.toList = d.sectionName.toList ++ ':' :: d.key.toList := by
  rw [writtenName, if_neg named, String.toList_append, String.toList_append, List.append_assoc]
  rfl

theorem noEquals_writtenName_iff (d : Directive) :
    '=' ∉ d.writtenName.toList ↔ '=' ∉ d.sectionName.toList ∧ '=' ∉ d.key.toList := by
  by_cases global : d.sectionName = globalSection
  · rw [writtenName_of_global global, global]
    exact ⟨fun free => ⟨by decide, free⟩, And.right⟩
  · rw [writtenName_of_section global, List.mem_append, List.mem_cons, not_or, not_or]
    exact ⟨fun ⟨first, _, second⟩ => ⟨first, second⟩, fun ⟨first, second⟩ => ⟨first, by decide, second⟩⟩

/-- A written name is parted as it was put together if its key has no colon and trimming takes
nothing from it. -/
theorem splitName_writtenName_iff (d : Directive) :
    splitName (Text.trim d.writtenName.toList) = (d.sectionName, d.key) ↔
      ':' ∉ d.key.toList ∧
        if d.sectionName = globalSection then Text.trim d.key.toList = d.key.toList
        else Text.trimStart d.sectionName.toList = d.sectionName.toList ∧
          Text.trimEnd d.key.toList = d.key.toList := by
  rw [splitName_eq_iff]
  refine and_congr_right fun noColon => ?_
  by_cases global : d.sectionName = globalSection
  · rw [writtenName_of_global global, if_pos global]
    constructor
    · rintro (colon | ⟨_, plain⟩)
      · have inside : ':' ∈ Text.trim d.key.toList := by
          rw [colon]
          exact List.mem_append_right _ List.mem_cons_self
        exact absurd (Text.trim_subset _ inside) noColon
      · exact plain
    · exact fun plain => Or.inr ⟨global, plain⟩
  · have visible : Text.isBlank ':' = false := by decide
    rw [writtenName_of_section global, if_neg global, ← Text.trim_append_cons_eq_self_iff visible]
    exact or_iff_left fun other => global other.1

theorem noEquals_blank_append {blanks name : List Char} (blank : ∀ c ∈ blanks, Text.isBlank c)
    (noEquals : '=' ∉ name) : '=' ∉ blanks ++ name := by
  rw [List.mem_append, not_or]
  exact ⟨fun inside => absurd (blank _ inside) (by decide), noEquals⟩

/-- Blank characters in front of a written name do not matter, and the value is read where it was
written. -/
theorem parseBody_written_iff (d : Directive) {blanks : List Char}
    (blank : ∀ c ∈ blanks, Text.isBlank c) :
    parseBody d.scope (blanks ++ d.writtenName.toList ++ '=' :: d.value.text) = .ok d ↔
      '=' ∉ d.writtenName.toList ∧
        splitName (Text.trim d.writtenName.toList) = (d.sectionName, d.key) ∧
        Json.parse d.value.render = .ok d.value := by
  have padded := Text.trim_blank_append blank d.writtenName.toList
  rw [Json.render, ← Json.trim_text d.value, ← padded]
  constructor
  · intro read
    have noEquals := d.noEquals_writtenName_iff.mpr (noEquals_of_parseBody read)
    obtain ⟨_, name, value, cut, freeName, named, valued⟩ := parseBody_eq_ok_iff.mp read
    obtain ⟨rfl, rfl⟩ := Text.append_sep_inj (noEquals_blank_append blank noEquals) freeName cut
    rw [Json.trim_text] at valued
    exact ⟨noEquals, named, valued⟩
  · rintro ⟨noEquals, named, valued⟩
    rw [← Json.trim_text d.value] at valued
    exact parseBody_eq_ok_iff.mpr
      ⟨rfl, _, _, rfl, noEquals_blank_append blank noEquals, named, valued⟩

/-- What is written is read with the scope that was written, unless a name that is written without
one starts with the letter of the other. -/
theorem exists_parse_text {d : Directive}
    (clear : d.scope = .oneTarget → d.writtenName.toList.head? ≠ some 'G') :
    ∃ blanks : List Char, (∀ c ∈ blanks, Text.isBlank c) ∧
      parse d.text.toList = parseBody d.scope (blanks ++ d.writtenName.toList ++ '=' :: d.value.text) := by
  rw [toList_text]
  cases scope : d.scope with
  | global => exact ⟨[' '], List.forall_mem_singleton.mpr rfl, rfl⟩
  | oneTarget =>
    have other : (d.writtenName.toList ++ '=' :: d.value.text).head? ≠ some 'G' := by
      cases named : d.writtenName.toList with
      | nil => exact fun same => by cases same
      | cons c rest => simpa [named] using clear scope
    refine ⟨[], nofun, ?_⟩
    show parse ('-' :: (d.writtenName.toList ++ '=' :: d.value.text)) = _
    rw [parse, scopeOf_oneTarget other]
    rfl

/-- A name that starts with the letter of the other scope is not read with its own. -/
theorem parse_text_ne_of_letter {d : Directive} (scope : d.scope = .oneTarget)
    (letter : d.writtenName.toList.head? = some 'G') : parse d.text.toList ≠ .ok d := by
  intro read
  obtain ⟨rest, named⟩ := List.head?_eq_some_iff.mp letter
  rw [toList_text, scope, named] at read
  have global := (parseBody_eq_ok_iff.mp read).1
  rw [scope] at global
  cases global

/-- A directive is read back as it was written if and only if its name has no `=` and its key no
colon, no blank character stands where the name is trimmed, the name of a local one does not
start with the letter that marks a global one, and its value is read back. -/
theorem parse_text_iff (d : Directive) :
    parse d.text.toList = .ok d ↔
      '=' ∉ d.sectionName.toList ∧ '=' ∉ d.key.toList ∧ ':' ∉ d.key.toList ∧
        (if d.sectionName = globalSection then
          (∀ c ∈ d.key.toList.head?, Text.isBlank c = false) ∧
            ∀ c ∈ d.key.toList.getLast?, Text.isBlank c = false
        else
          (∀ c ∈ d.sectionName.toList.head?, Text.isBlank c = false) ∧
            ∀ c ∈ d.key.toList.getLast?, Text.isBlank c = false) ∧
        (d.scope = .oneTarget → d.writtenName.toList.head? ≠ some 'G') ∧
        Json.parse d.value.render = .ok d.value := by
  have shape := splitName_writtenName_iff d
  rw [Text.trim_eq_self_iff, Text.trimStart_eq_self_iff, Text.trimEnd_eq_self_iff] at shape
  by_cases clear : d.scope = .oneTarget → d.writtenName.toList.head? ≠ some 'G'
  · obtain ⟨blanks, blank, read⟩ := exists_parse_text clear
    rw [read, parseBody_written_iff d blank, noEquals_writtenName_iff, shape, and_iff_right clear,
      and_assoc, and_assoc]
  · obtain ⟨scope, letter⟩ := Classical.not_imp.mp clear
    exact iff_of_false (parse_text_ne_of_letter scope (not_not.mp letter)) fun conditions =>
      clear conditions.2.2.2.2.1

-- A name that starts with the letter is read with the other scope and without the letter.
example : parse (text ⟨⟨globalSection, "Gx", .bool true⟩, .oneTarget⟩).toList =
    .ok ⟨⟨globalSection, "x", .bool true⟩, .global⟩ := by decide +kernel

end BatchFetch.Directive
