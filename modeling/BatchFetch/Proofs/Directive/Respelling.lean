import BatchFetch.Proofs.Directive.RoundTrip

namespace BatchFetch.Directive

variable {line : List Char} {d : Directive}

/-- A name that is read has no colon in its key and no blank characters at its ends. -/
theorem trimmed_of_parse (read : parse line = .ok d) :
    ':' ∉ d.key.toList ∧ Text.trimEnd d.key.toList = d.key.toList ∧
      (d.sectionName ≠ globalSection → Text.trimStart d.sectionName.toList = d.sectionName.toList) := by
  obtain ⟨_, name, _, _, _, named, _⟩ := parseBody_eq_ok_iff.mp read
  have trimmed := Text.trim_trim name
  obtain ⟨noColon, colon | ⟨global, plain⟩⟩ := splitName_eq_iff.mp named
  · rw [colon, Text.trim_append_cons_eq_self_iff (by decide)] at trimmed
    exact ⟨noColon, trimmed.2, fun _ => trimmed.1⟩
  · rw [plain, Text.trim_eq_self_iff] at trimmed
    exact ⟨noColon, Text.trimEnd_eq_self_iff.mpr trimmed.2, fun named => absurd global named⟩

/-- The name of a directive that is read is parted in the same way again, except where the prefix of
the global section has kept blank characters in its key. -/
theorem splitName_writtenName_iff_of_parse (read : parse line = .ok d) :
    splitName (Text.trim d.writtenName.toList) = (d.sectionName, d.key) ↔
      (d.sectionName = globalSection → ∀ c ∈ d.key.toList.head?, Text.isBlank c = false) := by
  obtain ⟨noColon, keyEnds, sectionStarts⟩ := trimmed_of_parse read
  rw [splitName_writtenName_iff, and_iff_right noColon]
  split_ifs with global
  · rw [Text.trim_eq_self_iff, forall_prop_of_true global]
    exact and_iff_left (Text.trimEnd_eq_self_iff.mp keyEnds)
  · exact iff_of_true ⟨sectionStarts global, keyEnds⟩ fun same => absurd same global

theorem parseBody_value (scope : Scope) {name : List Char} (noEquals : '=' ∉ name) {value : Json}
    (valued : Json.parse value.render = .ok value) :
    parseBody scope (name ++ '=' :: value.text) =
      .ok ⟨⟨(splitName (Text.trim name)).1, (splitName (Text.trim name)).2, value⟩, scope⟩ := by
  rw [parseBody_pair scope noEquals, Json.trim_text, ← Json.render, valued]

/-- A directive that is read and written again is read with the same value. Its scope is the same if
and only if it is not a local one whose name starts with the letter of the other scope, and it is the
same directive if and only if its key does not start blank in the global section either. -/
theorem respelling_keeps_iff (read : parse line = .ok d)
    (valued : Json.parse d.value.render = .ok d.value) :
    ∃ again, parse d.text.toList = .ok again ∧ again.value = d.value ∧
      (again.scope = d.scope ↔
        (d.scope = .oneTarget → d.writtenName.toList.head? ≠ some 'G')) ∧
      (again = d ↔ (d.scope = .oneTarget → d.writtenName.toList.head? ≠ some 'G') ∧
        (d.sectionName = globalSection → ∀ c ∈ d.key.toList.head?, Text.isBlank c = false)) := by
  have noEquals := d.noEquals_writtenName_iff.mpr (noEquals_of_parseBody read)
  rw [← splitName_writtenName_iff_of_parse read]
  by_cases clear : d.scope = .oneTarget → d.writtenName.toList.head? ≠ some 'G'
  · obtain ⟨blanks, blank, written⟩ := exists_parse_text clear
    have free := noEquals_blank_append blank noEquals
    refine ⟨_, written.trans (parseBody_value d.scope free valued), rfl, iff_of_true rfl clear, ?_⟩
    rw [and_iff_right clear, Text.trim_blank_append blank]
    obtain ⟨⟨sectionName, key, value⟩, scope⟩ := d
    simp [Prod.ext_iff]
  · -- the dash and the first letter of the name make up the mark of the other scope
    obtain ⟨scope, letter⟩ := Classical.not_imp.mp clear
    obtain ⟨rest, named⟩ := List.head?_eq_some_iff.mp (not_not.mp letter)
    rw [named] at noEquals
    have free : '=' ∉ rest := fun inside => noEquals (List.mem_cons_of_mem _ inside)
    have written : parse d.text.toList = parseBody .global (rest ++ '=' :: d.value.text) := by
      rw [toList_text, scope, named]
      rfl
    have differs : Scope.global ≠ d.scope := by
      rw [scope]
      decide
    refine ⟨_, written.trans (parseBody_value .global free valued), rfl, iff_of_false differs clear, ?_⟩
    exact iff_of_false (fun same => differs (congrArg Directive.scope same)) fun both => clear both.1

/-- Blank characters on both sides of the colon are kept. -/
theorem respelling_keeps_iff_padded :
    let d : Directive := ⟨⟨"plugin ", " opt", .bool true⟩, .oneTarget⟩
    parse "- plugin : opt = true".toList = .ok d ∧ Json.parse d.value.render = .ok d.value ∧
      d.text = "-plugin : opt=true" ∧ parse d.text.toList = .ok d := by
  intro d
  have read : parse "- plugin : opt = true".toList = .ok d := by decide +kernel
  have valued : Json.parse d.value.render = .ok d.value := by decide +kernel
  obtain ⟨again, written, _, _, same⟩ := respelling_keeps_iff read valued
  refine ⟨read, valued, by decide +kernel, written.trans (congrArg _ (same.mpr ⟨?_, ?_⟩))⟩
  · decide +kernel
  · decide +kernel

/-- A local directive comes back as a global one, and a key without its first character. -/
theorem respelling_loses :
    let marked : Directive := ⟨⟨globalSection, "Gx", .bool true⟩, .oneTarget⟩
    let blank : Directive := ⟨⟨globalSection, " x", .bool true⟩, .oneTarget⟩
    (parse "- Gx=true".toList = .ok marked ∧ Json.parse marked.value.render = .ok marked.value ∧
      marked.text = "-Gx=true" ∧
      parse marked.text.toList = .ok ⟨⟨globalSection, "x", .bool true⟩, .global⟩ ∧
      parse marked.text.toList ≠ .ok marked) ∧
    parse "-__global__: x=true".toList = .ok blank ∧ Json.parse blank.value.render = .ok blank.value ∧
      blank.text = "- x=true" ∧
      parse blank.text.toList = .ok ⟨⟨globalSection, "x", .bool true⟩, .oneTarget⟩ ∧
      parse blank.text.toList ≠ .ok blank := by
  decide +kernel

end BatchFetch.Directive
