import BatchFetch.CommandLine.Setting
import BatchFetch.Proofs.Directive.Reading
import BatchFetch.Proofs.Store.Merging

namespace BatchFetch

namespace Json

/-- The document that holds a value under names. -/
def under (names : List String) (value : Json) : Json :=
  names.foldr (fun name inner => obj [(name, inner)]) value

theorem leaves_under (names : List String) {value : Json} (plain : value.isSection = false) :
    (under names value).leaves = [(names, value)] := by
  induction names with
  | nil => exact leaves_of_not_isSection plain
  | cons name rest ih =>
    rw [under, List.foldr_cons, leaves_obj (List.cons_ne_nil _ _), memberLeaves, ← under, ih]
    rfl

end Json

namespace Store

theorem loadDocument_under (store : Store) {names : List String} (some : names ≠ []) {value : Json}
    (plain : value.isSection = false) :
    store.loadDocument (.under names value) = .ok (store.set (.ofLeaf names value), 1) := by
  cases names with
  | nil => exact absurd rfl some
  | cons name rest =>
    have leaves := Json.leaves_under (name :: rest) plain
    rw [Json.under, List.foldr_cons, Json.leaves_obj (List.cons_ne_nil _ _)] at leaves
    rw [Json.under, List.foldr_cons, loadDocument_obj, leaves]
    rfl

theorem not_mem_joined {c : Char} (other : c ≠ levelSeparator) {names : List String}
    (free : ∀ name ∈ names, c ∉ name.toList) : c ∉ (joined names).toList := by
  rw [joined, String.toList_intercalate]
  intro inside
  rcases Text.mem_intercalate inside with separates | ⟨part, among, within⟩
  · exact other separates
  · obtain ⟨name, member, rfl⟩ := List.mem_map.mp among
    exact free name member within

end Store

namespace Setting

/-- The last level of a dotted name is the key. -/
theorem splitName_joined (outer : List String) {key : String}
    (noDot : levelSeparator ∉ key.toList) :
    splitName (Store.joined (outer ++ [key])).toList = (Store.sectionOf outer, key) := by
  unfold splitName
  by_cases none : outer = []
  · have whole : Store.joined ([] ++ [key]) = key := String.intercalate_singleton
    rw [none, whole, Text.cutLast_eq_none_iff.mpr noDot]
    exact congrArg (Prod.mk _) String.ofList_toList
  · rw [Store.joined_concat none, Text.cutLast_append _ noDot, Store.sectionOf_eq_joined none]
    exact Prod.ext String.ofList_toList String.ofList_toList

theorem ofLeaf_concat (outer : List String) (key : String) (value : Json) :
    ofLeaf (outer ++ [key]) value = ⟨Store.sectionOf outer, key, value⟩ := by
  rw [ofLeaf, List.dropLast_concat, List.getLast?_concat, Option.getD_some]

theorem parse_pair {name text : String} (noEquals : '=' ∉ name.toList) (some : name ≠ "")
    (trimmed : Text.trim name.toList = name.toList) {value : Json} (reads : Json.parse text = .ok value) :
    parse (name ++ "=" ++ text) =
      .ok ⟨(splitName name.toList).1, (splitName name.toList).2, value⟩ := by
  have chars : (name ++ "=" ++ text).toList = name.toList ++ '=' :: text.toList := by simp
  have given : ¬ name.toList.isEmpty = true := by simpa using some
  rw [parse, chars, Text.cutFirst_append noEquals]
  simp only [trimmed, if_neg given, String.ofList_toList, valueOf, reads]
  rfl

end Setting

namespace Directive

/-- The name with which a directive gives a key below outer names. -/
def nameBelow (outer : List String) (key : String) : String :=
  if outer = [] then key else Store.joined outer ++ ":" ++ key

theorem nameBelow_of_some {outer : List String} (some : outer ≠ []) (key : String) :
    (nameBelow outer key).toList = (Store.joined outer).toList ++ ':' :: key.toList := by
  rw [nameBelow, if_neg some, String.toList_append, String.toList_append, List.append_assoc]
  rfl

theorem splitName_nameBelow (outer : List String) {key : String} (noColon : ':' ∉ key.toList) :
    splitName (nameBelow outer key).toList = (Store.sectionOf outer, key) := by
  rw [splitName_eq_iff]
  refine ⟨noColon, ?_⟩
  by_cases none : outer = []
  · rw [none]
    exact Or.inr ⟨rfl, rfl⟩
  · rw [nameBelow_of_some none, Store.sectionOf_eq_joined none]
    exact Or.inl rfl

theorem noEquals_nameBelow {outer : List String} {key : String}
    (free : ∀ name ∈ outer ++ [key], '=' ∉ name.toList) : '=' ∉ (nameBelow outer key).toList := by
  obtain ⟨freeOuter, freeKey⟩ := List.forall_mem_append.mp free
  have noEquals := freeKey key (List.mem_singleton_self key)
  by_cases none : outer = []
  · rwa [nameBelow, if_pos none]
  · rw [nameBelow_of_some none, List.mem_append, List.mem_cons, not_or, not_or]
    exact ⟨Store.not_mem_joined (by decide) freeOuter, by decide, noEquals⟩

/-- The last level stands behind a dot or behind a colon, and the ends of the name are the same. -/
theorem trim_nameBelow {outer : List String} {key : String}
    (trimmed : Text.trim (Store.joined (outer ++ [key])).toList =
      (Store.joined (outer ++ [key])).toList) :
    Text.trim (nameBelow outer key).toList = (nameBelow outer key).toList := by
  by_cases none : outer = []
  · have whole : Store.joined ([] ++ [key]) = key := String.intercalate_singleton
    rw [none, whole] at trimmed
    rwa [none]
  · rw [Store.joined_concat none, Text.trim_append_cons_eq_self_iff (by decide)] at trimmed
    rw [nameBelow_of_some none, Text.trim_append_cons_eq_self_iff (by decide)]
    exact trimmed

theorem parse_global_pair {name text : String} (noEquals : '=' ∉ name.toList)
    (trimmed : Text.trim name.toList = name.toList) (bare : Text.trim text.toList = text.toList)
    {value : Json} (reads : Json.parse text = .ok value) :
    parse ("-G " ++ name ++ "=" ++ text).toList =
      .ok ⟨⟨(splitName name.toList).1, (splitName name.toList).2, value⟩, .global⟩ := by
  have chars : ("-G " ++ name ++ "=" ++ text).toList =
      '-' :: 'G' :: ([' '] ++ name.toList ++ '=' :: text.toList) := by simp
  have free : '=' ∉ [' '] ++ name.toList := by simpa using noEquals
  have padded : Text.trim ([' '] ++ name.toList) = Text.trim name.toList :=
    Text.trim_blank_append (List.forall_mem_singleton.mpr rfl) name.toList
  rw [chars, parse, scopeOf_global]
  simp only [parseBody_pair .global free, bare, String.ofList_toList, reads, padded, trimmed]

end Directive

namespace Setting

/-- An option that is given on the command line, in a document or by a directive is the same setting,
and changes a store in the same way: names of sections are parted by dots, and the key stands behind
a dot, in the innermost mapping or behind a colon. -/
theorem spellings_agree (outer : List String) (key : String)
    (free : ∀ name ∈ outer ++ [key], '.' ∉ name.toList ∧ ':' ∉ name.toList ∧ '=' ∉ name.toList)
    (some : Store.joined (outer ++ [key]) ≠ "")
    (trimmed : Text.trimmed (Store.joined (outer ++ [key])) = Store.joined (outer ++ [key]))
    {value : Json} (plain : value.isSection = false) {text : String}
    (reads : Json.parse text = .ok value) (bare : Text.trimmed text = text) (store : Store) :
    ∃ option directive merged,
      parse (Store.joined (outer ++ [key]) ++ "=" ++ text) = .ok option ∧
      Directive.parse ("-G " ++ Directive.nameBelow outer key ++ "=" ++ text).toList = .ok directive ∧
      store.loadDocument (.under (outer ++ [key]) value) = .ok (merged, 1) ∧
      directive = ⟨option, .global⟩ ∧ store.set option = merged ∧
      store.set directive.toSetting = merged := by
  have inside : key ∈ outer ++ [key] := List.mem_append_right _ (List.mem_singleton_self key)
  have noEquals : ∀ name ∈ outer ++ [key], '=' ∉ name.toList := fun name member =>
    (free name member).2.2
  have whole := Text.trim_eq_of_trimmed trimmed
  have alone := Text.trim_eq_of_trimmed bare
  have option := parse_pair (Store.not_mem_joined (by decide) noEquals) some whole reads
  rw [splitName_joined outer (free key inside).1] at option
  have directive := Directive.parse_global_pair (Directive.noEquals_nameBelow noEquals)
    (Directive.trim_nameBelow whole) alone reads
  rw [Directive.splitName_nameBelow outer (free key inside).2.1] at directive
  have merged := store.loadDocument_under (List.append_ne_nil_of_right_ne_nil outer
    (List.cons_ne_nil key [])) plain
  rw [ofLeaf_concat] at merged
  exact ⟨_, _, _, option, directive, merged, rfl, rfl, rfl⟩

theorem spellings_agree_blanks :
    let outer := ["", "a b"]
    let key := " k"
    let value : Json := .arr [.num (.int 1), .obj []]
    (∀ name ∈ outer ++ [key], '.' ∉ name.toList ∧ ':' ∉ name.toList ∧ '=' ∉ name.toList) ∧
      Store.joined (outer ++ [key]) = ".a b. k" ∧ Directive.nameBelow outer key = ".a b: k" ∧
      value.isSection = false ∧ Json.parse "[1, \x7b\x7d ]" = .ok value ∧
      ∃ option directive merged,
        parse ".a b. k=[1, \x7b\x7d ]" = .ok option ∧
        Directive.parse "-G .a b: k=[1, \x7b\x7d ]".toList = .ok directive ∧
        Store.empty.loadDocument (.obj [("", .obj [("a b", .obj [(" k", value)])])]) =
          .ok (merged, 1) ∧
        directive = ⟨option, .global⟩ ∧ Store.empty.set option = merged ∧
        Store.empty.set directive.toSetting = merged := by
  intro outer key value
  have free : ∀ name ∈ outer ++ [key],
      '.' ∉ name.toList ∧ ':' ∉ name.toList ∧ '=' ∉ name.toList := by decide
  have reads : Json.parse "[1, \x7b\x7d ]" = .ok value := by decide +kernel
  exact ⟨free, by decide, by decide, rfl, reads,
    spellings_agree outer key free (by decide) (by decide) rfl reads (by decide) .empty⟩

end Setting
end BatchFetch
