import BatchFetch.Proofs.Store.Document
import BatchFetch.Proofs.Store.Levels
import BatchFetch.Proofs.Text.Pieces
import Mathlib.Data.List.Find
import Mathlib.Data.List.Infix

namespace BatchFetch

namespace Json

/-- A mapping that stands for a section: one that is not empty. -/
def isSection : Json → Bool
  | .obj (_ :: _) => true
  | _ => false

/-- The members of a document in which each mapping has each key once, and no key has a separator
in it. -/
inductive IsNested : List (String × Json) → Prop
  | intro {members : List (String × Json)} : (members.map Prod.fst).Nodup →
      (∀ entry ∈ members, levelSeparator ∉ entry.1.toList) →
      (∀ key inner, (key, .obj inner) ∈ members → IsNested inner) → IsNested members

/-- The mappings on the way of names, as far as it leads through mappings that are not empty. -/
def nodes : List String → List (String × Json) → List (List (String × Json))
  | [], members => [members]
  | name :: names, members =>
    members ::
      match Entries.get? name members with
      | some (.obj (first :: inner)) => nodes names (first :: inner)
      | _ => []

/-- The value of a key that is there and does not stand for a section. -/
def valueAt? (key : String) (members : List (String × Json)) : Option Json :=
  (Entries.get? key members).filter (!·.isSection)

/-- The value that a key inherits along names: that of the deepest mapping which has one. -/
def inherited? (names : List String) (key : String) (members : List (String × Json)) :
    Option Json :=
  ((nodes names members).filterMap (valueAt? key)).getLast?

/-- The value of the last leaf under some names. -/
def leafAt? (names : List String) (leaves : List (List String × Json)) : Option Json :=
  (leaves.reverse.find? (·.1 == names)).map Prod.snd

theorem leafAt?_append (names : List String) (first second : List (List String × Json)) :
    leafAt? names (first ++ second) = (leafAt? names second).or (leafAt? names first) := by
  simp only [leafAt?, List.reverse_append, List.find?_append, Option.map_or]

theorem leafAt?_eq_none {names : List String} {leaves : List (List String × Json)}
    (absent : ∀ leaf ∈ leaves, leaf.1 ≠ names) : leafAt? names leaves = none := by
  rw [leafAt?, Option.map_eq_none_iff, List.find?_eq_none]
  intro leaf member same
  exact absent leaf (List.mem_reverse.mp member) (beq_iff_eq.mp same)

theorem leafAt?_map_cons (key : String) (names : List String)
    (leaves : List (List String × Json)) :
    leafAt? (key :: names) (leaves.map fun leaf => (key :: leaf.1, leaf.2)) =
      leafAt? names leaves := by
  rw [leafAt?, leafAt?, ← List.map_reverse, List.find?_map, Option.map_map]
  have same : ((fun leaf : List String × Json => leaf.1 == key :: names) ∘
      fun leaf : List String × Json => (key :: leaf.1, leaf.2)) = fun leaf => leaf.1 == names := by
    funext leaf
    simp
  rw [same]
  rfl

theorem mem_memberLeaves {members : List (String × Json)} {leaf : List String × Json}
    (member : leaf ∈ memberLeaves members) :
    ∃ key value, (key, value) ∈ members ∧
      ∃ below ∈ value.leaves, leaf = (key :: below.1, below.2) := by
  induction members with
  | nil => cases member
  | cons entry rest ih =>
    rw [memberLeaves] at member
    rcases List.mem_append.mp member with here | later
    · obtain ⟨below, among, rfl⟩ := List.mem_map.mp here
      exact ⟨entry.1, entry.2, List.mem_cons_self, below, among, rfl⟩
    · obtain ⟨key, value, among, below⟩ := ih later
      exact ⟨key, value, List.mem_cons_of_mem _ among, below⟩

theorem exists_of_isSection {value : Json} (heads : value.isSection = true) :
    ∃ first inner, value = .obj (first :: inner) := by
  unfold isSection at heads
  split at heads
  · exact ⟨_, _, rfl⟩
  · cases heads

theorem leaves_of_not_isSection {value : Json} (plain : value.isSection = false) :
    value.leaves = [([], value)] := by
  unfold leaves
  split
  · cases plain
  · rfl

/-- A name leads to the leaves of the value under it. -/
theorem leafAt?_cons {members : List (String × Json)} (once : (members.map Prod.fst).Nodup)
    (key : String) (names : List String) :
    leafAt? (key :: names) (memberLeaves members) =
      (Entries.get? key members).bind fun value => leafAt? names value.leaves := by
  induction members with
  | nil => rfl
  | cons entry rest ih =>
    obtain ⟨name, value⟩ := entry
    obtain ⟨fresh, onceLater⟩ := List.nodup_cons.mp once
    rw [memberLeaves, leafAt?_append, ih onceLater, Entries.get?]
    by_cases same : key = name
    · have absent : Entries.get? key rest = none := by
        rw [Option.eq_none_iff_forall_ne_some]
        intro other found
        exact fresh (List.mem_map.mpr ⟨_, Entries.mem_of_get? found, same⟩)
      rw [if_pos same, absent, same, leafAt?_map_cons]
      rfl
    · have elsewhere : leafAt? (key :: names)
          (value.leaves.map fun leaf => (name :: leaf.1, leaf.2)) = none := by
        refine leafAt?_eq_none fun leaf member equal => ?_
        obtain ⟨below, _, rfl⟩ := List.mem_map.mp member
        exact same (List.cons.inj equal).1.symm
      rw [if_neg same, elsewhere, Option.or_none]

/-- A leaf under one name is the value of that key. -/
theorem leafAt?_singleton {members : List (String × Json)} (once : (members.map Prod.fst).Nodup)
    (key : String) : leafAt? [key] (memberLeaves members) = valueAt? key members := by
  rw [leafAt?_cons once, valueAt?]
  cases Entries.get? key members with
  | none => rfl
  | some value =>
    rw [Option.bind_some, Option.filter_some]
    cases heads : value.isSection with
    | false =>
      rw [leaves_of_not_isSection heads]
      rfl
    | true =>
      obtain ⟨first, inner, rfl⟩ := exists_of_isSection heads
      refine leafAt?_eq_none fun leaf member => ?_
      rw [leaves] at member
      obtain ⟨_, _, _, below, _, rfl⟩ := mem_memberLeaves member
      exact List.cons_ne_nil _ _

/-- There are no leaves below a value that does not stand for a section. -/
theorem leafAt?_concat_of_not_isSection {value : Json} (plain : value.isSection = false)
    (front : List String) (key : String) : leafAt? (front ++ [key]) value.leaves = none := by
  rw [leaves_of_not_isSection plain]
  refine leafAt?_eq_none fun leaf member equal => ?_
  rw [List.mem_singleton.mp member] at equal
  exact List.append_ne_nil_of_right_ne_nil _ (List.cons_ne_nil _ _) equal.symm

/-- The leaves of a key under the first names are its values at the mappings on the way. -/
theorem filterMap_leafAt? {members : List (String × Json)} (nested : IsNested members)
    (names : List String) (key : String) :
    names.inits.filterMap (fun front => leafAt? (front ++ [key]) (memberLeaves members)) =
      (nodes names members).filterMap (valueAt? key) := by
  induction names generalizing members with
  | nil =>
    obtain ⟨once, _, _⟩ := nested
    simp only [List.inits, nodes, List.filterMap_cons, List.filterMap_nil, List.nil_append,
      leafAt?_singleton once]
  | cons name names ih =>
    obtain ⟨once, _, inner⟩ := nested
    have deeper : (names.inits.map (name :: ·)).filterMap
        (fun front => leafAt? (front ++ [key]) (memberLeaves members)) =
          names.inits.filterMap fun front =>
            (Entries.get? name members).bind fun value => leafAt? (front ++ [key]) value.leaves := by
      rw [List.filterMap_map]
      refine List.filterMap_congr fun front _ => ?_
      rw [Function.comp_apply, List.cons_append, leafAt?_cons once]
    rw [List.inits_cons, List.filterMap_cons, List.nil_append, leafAt?_singleton once, deeper,
      nodes, List.filterMap_cons]
    suffices below : names.inits.filterMap (fun front =>
        (Entries.get? name members).bind fun value => leafAt? (front ++ [key]) value.leaves) =
          (match Entries.get? name members with
            | some (.obj (first :: inner)) => nodes names (first :: inner)
            | _ => []).filterMap (valueAt? key) by rw [below]
    split
    · rename_i first inside found
      have among := inner _ _ (Entries.mem_of_get? found)
      simp only [found, Option.bind_some, leaves]
      exact ih among
    · rename_i noSection
      refine List.filterMap_eq_nil_iff.mpr fun front _ => Option.bind_eq_none_iff.mpr ?_
      intro value found
      cases heads : value.isSection with
      | false => exact leafAt?_concat_of_not_isSection heads front key
      | true =>
        obtain ⟨first, inside, rfl⟩ := exists_of_isSection heads
        exact absurd found (noSection first inside)

theorem IsNested.leaf_names {members : List (String × Json)} (nested : IsNested members)
    {leaf : List String × Json} (member : leaf ∈ memberLeaves members) :
    ∀ name ∈ leaf.1, levelSeparator ∉ name.toList := by
  induction nested generalizing leaf with
  | @intro members _ free _ ih =>
    obtain ⟨key, value, among, below, within, rfl⟩ := mem_memberLeaves member
    refine List.forall_mem_cons.mpr ⟨free _ among, ?_⟩
    cases heads : value.isSection with
    | false =>
      rw [leaves_of_not_isSection heads] at within
      rw [List.mem_singleton.mp within]
      exact fun _ absent => absurd absent List.not_mem_nil
    | true =>
      obtain ⟨first, inner, rfl⟩ := exists_of_isSection heads
      rw [leaves] at within
      exact ih key _ among within

end Json

namespace Store

/-- The name of a section from its levels. -/
def joined (names : List String) : String :=
  levelSeparator.toString.intercalate names

theorem joined_inj {names others : List String} (some : names ≠ []) (someToo : others ≠ [])
    (free : ∀ name ∈ names, levelSeparator ∉ name.toList)
    (freeToo : ∀ name ∈ others, levelSeparator ∉ name.toList) (equal : joined names = joined others) :
    names = others := by
  have cut {names : List String} (some : names ≠ [])
      (free : ∀ name ∈ names, levelSeparator ∉ name.toList) :
      Text.pieces levelSeparator (joined names).toList = names.map String.toList := by
    rw [joined, String.toList_intercalate]
    refine Text.pieces_intercalate ?_ (mt List.map_eq_nil_iff.mp some)
    intro part member
    obtain ⟨name, among, rfl⟩ := List.mem_map.mp member
    exact free name among
  have same := (cut some free).symm.trans ((congrArg _ (congrArg _ equal)).trans (cut someToo freeToo))
  exact List.map_injective_iff.mpr (fun _ _ => String.toList_injective) same

theorem sectionOf_eq_joined {names : List String} (some : names ≠ []) :
    sectionOf names = joined names := by
  cases names with
  | nil => exact absurd rfl some
  | cons => rfl

/-- Outer names are known from their section, unless they are the name of the global one. -/
theorem sectionOf_inj {names others : List String} (notGlobal : names ≠ [globalSection])
    (notGlobalToo : others ≠ [globalSection])
    (free : ∀ name ∈ names, levelSeparator ∉ name.toList)
    (freeToo : ∀ name ∈ others, levelSeparator ∉ name.toList)
    (equal : sectionOf names = sectionOf others) : names = others := by
  have freeGlobal : ∀ name ∈ [globalSection], levelSeparator ∉ name.toList := by decide
  have outermost : sectionOf [] = joined [globalSection] := by decide
  by_cases none : names = []
  · by_cases noneToo : others = []
    · rw [none, noneToo]
    · rw [none, outermost, sectionOf_eq_joined noneToo] at equal
      exact absurd (joined_inj (List.cons_ne_nil _ _) noneToo freeGlobal freeToo equal).symm
        notGlobalToo
  · by_cases noneToo : others = []
    · rw [noneToo, outermost, sectionOf_eq_joined none] at equal
      exact absurd (joined_inj none (List.cons_ne_nil _ _) free freeGlobal equal) notGlobal
    · rw [sectionOf_eq_joined none, sectionOf_eq_joined noneToo] at equal
      exact joined_inj none noneToo free freeToo equal

theorem levelsFrom_append (seen piece rest : List Char) (free : levelSeparator ∉ piece) :
    levelsFrom seen (piece ++ rest) = levelsFrom (piece.reverse ++ seen) rest := by
  induction piece generalizing seen with
  | nil => rfl
  | cons c piece ih =>
    obtain ⟨other, freeLater⟩ := List.ne_and_not_mem_of_not_mem_cons free
    rw [List.cons_append, levelsFrom, if_neg other.symm, ih _ freeLater, List.reverse_cons,
      List.append_assoc, List.singleton_append]

theorem joined_concat {outer : List String} (some : outer ≠ []) (name : String) :
    (joined (outer ++ [name])).toList = (joined outer).toList ++ levelSeparator :: name.toList := by
  rw [joined, String.intercalate_append_of_ne_nil some (List.cons_ne_nil _ _),
    String.intercalate_singleton, String.toList_append, String.toList_append, List.append_assoc]
  rfl

theorem joined_cons (name : String) (rest : List String) :
    (joined (name :: rest)).toList =
      name.toList ++ rest.flatMap fun other => levelSeparator :: other.toList := by
  induction rest using List.reverseRecOn with
  | nil =>
    rw [joined, String.intercalate_singleton, List.flatMap_nil, List.append_nil]
  | append_singleton rest last ih =>
    rw [← List.cons_append, joined_concat (List.cons_ne_nil _ _), ih, List.flatMap_append,
      List.flatMap_singleton, List.append_assoc]

theorem levelsFrom_joined {outer : List String} (some : outer ≠ []) {rest : List String}
    (free : ∀ name ∈ rest, levelSeparator ∉ name.toList) :
    levelsFrom (joined outer).toList.reverse
        (rest.flatMap fun other => levelSeparator :: other.toList) =
      rest.inits.map fun inner => joined (outer ++ inner) := by
  induction rest generalizing outer with
  | nil =>
    simp only [List.flatMap_nil, levelsFrom, List.reverse_reverse, String.ofList_toList, List.inits,
      List.map_cons, List.map_nil, List.append_nil]
  | cons name rest ih =>
    obtain ⟨freeHere, freeLater⟩ := List.forall_mem_cons.mp free
    have further := ih (List.append_ne_nil_of_left_ne_nil some [name]) freeLater
    rw [joined_concat some, List.reverse_append, List.reverse_cons, List.append_assoc,
      List.singleton_append] at further
    rw [List.flatMap_cons, List.cons_append, levelsFrom, if_pos rfl,
      levelsFrom_append _ _ _ freeHere, further, List.reverse_reverse, String.ofList_toList,
      List.inits_cons, List.map_cons, List.map_map, List.append_nil]
    simp only [List.append_assoc, List.singleton_append]
    rfl

/-- The global section and the levels of a section are those of the first names, more and more. -/
theorem levels_joined {names : List String} (some : names ≠ [])
    (free : ∀ name ∈ names, levelSeparator ∉ name.toList) :
    globalSection :: levels (joined names) = names.inits.map sectionOf := by
  cases names with
  | nil => exact absurd rfl some
  | cons name rest =>
    obtain ⟨freeHere, freeLater⟩ := List.forall_mem_cons.mp free
    have further := levelsFrom_joined (List.cons_ne_nil name []) freeLater
    rw [joined, String.intercalate_singleton] at further
    rw [levels, joined_cons, levelsFrom_append _ _ _ freeHere, List.append_nil, further,
      List.inits_cons, List.map_cons, List.map_map]
    rfl

/-- Looking up walks from the global section through the levels, and the last value counts. -/
theorem interpolate?_joined (store : Store) {names : List String} (some : names ≠ [])
    (free : ∀ name ∈ names, levelSeparator ∉ name.toList) (notEmpty : joined names ≠ "")
    (notGlobal : joined names ≠ globalSection) (key : String) :
    store.interpolate? (joined names) key =
      (names.inits.filterMap fun front => store.get? (sectionOf front) key).getLast? := by
  have walked : (names.inits.filterMap fun front => store.get? (sectionOf front) key) =
      (globalSection :: levels (joined names)).filterMap (store.get? · key) := by
    rw [levels_joined some free, List.filterMap_map]
    rfl
  rw [interpolate?_of_section store notEmpty notGlobal, walked, List.filterMap_cons, atLevels?,
    getGlobal?]
  cases store.get? globalSection key with
  | none => rw [Option.or_none]
  | some value =>
    rw [List.getLast?_cons]
    cases ((levels (joined names)).filterMap (store.get? · key)).getLast? <;> rfl

theorem get?_leaves {members : List (String × Json)} (nested : Json.IsNested members)
    (noGlobal : ∀ entry ∈ members, entry.1 ≠ globalSection) {names : List String}
    (free : ∀ name ∈ names, levelSeparator ∉ name.toList) (notGlobal : names ≠ [globalSection])
    (key : String) :
    (empty.setAll ((Json.memberLeaves members).map fun leaf => .ofLeaf leaf.1 leaf.2)).get?
        (sectionOf names) key = Json.leafAt? (names ++ [key]) (Json.memberLeaves members) := by
  have same : ∀ leaf ∈ Json.memberLeaves members,
      (Setting.ofLeaf leaf.1 leaf.2).isAt (sectionOf names) key = (leaf.1 == names ++ [key]) := by
    intro leaf member
    have freeLeaf := nested.leaf_names member
    obtain ⟨top, value, among, below, _, rfl⟩ := Json.mem_memberLeaves member
    obtain ⟨outer, last, cut⟩ : ∃ outer last, top :: below.1 = outer ++ [last] :=
      ⟨_, _, (List.dropLast_append_getLast (List.cons_ne_nil _ _)).symm⟩
    rw [cut] at freeLeaf
    have notGlobalOuter : outer ≠ [globalSection] := by
      rintro rfl
      exact noGlobal _ among (List.cons.inj cut).1
    rw [Bool.eq_iff_iff, Setting.isAt_iff, beq_iff_eq, Setting.ofLeaf]
    simp only [cut, List.dropLast_concat, List.getLast?_concat, Option.getD_some]
    constructor
    · rintro ⟨sections, keys⟩
      rw [sectionOf_inj notGlobal notGlobalOuter free
        (fun name member => freeLeaf name (List.mem_append_left _ member)) sections, keys]
    · intro whole
      obtain ⟨names, keys⟩ := List.append_inj' whole rfl
      exact ⟨congrArg sectionOf names.symm, (List.singleton_inj.mp keys).symm⟩
  have nothing : empty.get? (sectionOf names) key = none := rfl
  rw [get?_setAll, nothing, Option.or_none, Setting.last?, Json.leafAt?, ← List.map_reverse,
    List.find?_map, Option.map_map]
  have found := List.find?_congr fun leaf member => same leaf (List.mem_reverse.mp member)
  exact congrArg (Option.map Prod.snd) found

theorem getLast?_of_eq {α β : Type} {look : α → Option β} {first : α} {more : List α}
    (same : ∀ front ∈ more, look front = none ∨ look front = look first) :
    ((first :: more).filterMap look).getLast? = look first := by
  rw [List.filterMap_cons]
  cases found : look first with
  | none =>
    have nothing : more.filterMap look = [] := List.filterMap_eq_nil_iff.mpr fun front member =>
      (same front member).elim id fun equal => equal.trans found
    rw [nothing]
    rfl
  | some value =>
    rw [List.getLast?_eq_some_getLast (List.cons_ne_nil _ _)]
    rcases List.mem_cons.mp (List.getLast_mem (List.cons_ne_nil value _)) with equal | later
    · rw [equal]
    · obtain ⟨front, member, looked⟩ := List.mem_filterMap.mp later
      rcases same front member with none | equal
      · rw [none] at looked
        cases looked
      · rw [← looked, equal, found]

/-- The values along a section are those of the mappings on the way. A section under the name of the
global one has no mapping, and there the global value is met once more. -/
theorem getLast?_levels {members : List (String × Json)} (nested : Json.IsNested members)
    (noGlobal : ∀ entry ∈ members, entry.1 ≠ globalSection) {names : List String}
    (free : ∀ name ∈ names, levelSeparator ∉ name.toList) (key : String) :
    (names.inits.filterMap fun front => (empty.setAll ((Json.memberLeaves members).map fun leaf =>
        .ofLeaf leaf.1 leaf.2)).get? (sectionOf front) key).getLast? =
      Json.inherited? names key members := by
  have freeFront {front : List String} (member : front ∈ names.inits) :
      ∀ name ∈ front, levelSeparator ∉ name.toList := fun name inside =>
    free name (((List.mem_inits _ _).mp member).subset inside)
  by_cases global : [globalSection] ∈ names.inits
  · obtain ⟨rest, rfl⟩ := (List.mem_inits _ _).mp global
    have absent : Entries.get? globalSection members = none := by
      rw [Option.eq_none_iff_forall_ne_some]
      intro value found
      exact noGlobal _ (Entries.mem_of_get? found) rfl
    have once : (members.map Prod.fst).Nodup := by
      obtain ⟨once, _, _⟩ := nested
      exact once
    have noNames : ∀ name ∈ ([] : List String), levelSeparator ∉ name.toList :=
      fun _ none => absurd none List.not_mem_nil
    have root := (get?_leaves nested noGlobal noNames (List.cons_ne_nil _ _).symm key).trans
      (Json.leafAt?_singleton once key)
    rw [Json.inherited?, List.singleton_append, List.inits_cons, Json.nodes, absent]
    refine (getLast?_of_eq fun front member => ?_).trans (root.trans ?_)
    · obtain ⟨inner, among, rfl⟩ := List.mem_map.mp member
      cases inner with
      | nil => exact Or.inr (congrArg (Store.get? _ · key) (by decide))
      | cons name inner =>
        have deeper : globalSection :: name :: inner ∈ ([globalSection] ++ rest).inits := by
          rw [List.singleton_append, List.inits_cons]
          exact List.mem_cons_of_mem _ (List.mem_map_of_mem among)
        refine Or.inl ?_
        rw [get?_leaves nested noGlobal (freeFront deeper) (by simp) key, List.cons_append,
          Json.leafAt?_cons once, absent]
        rfl
    · rw [List.filterMap_cons]
      cases Json.valueAt? key members <;> rfl
  · rw [Json.inherited?, ← Json.filterMap_leafAt? nested]
    refine congrArg List.getLast? (List.filterMap_congr fun front member => ?_)
    refine get?_leaves nested noGlobal (freeFront member) ?_ key
    rintro rfl
    exact global member

/-- Looking up an option in a nested document that was merged into an empty store is inheritance:
the answer is the value of the key at the deepest mapping on the way which has one that does not
stand for a section, be it null. -/
theorem nested_document_inherits (members : List (String × Json)) (nested : Json.IsNested members)
    (noGlobal : ∀ entry ∈ members, entry.1 ≠ globalSection) :
    ∃ store count, empty.mergeDocument (.obj members) = .ok (store, count) ∧
      ∀ names key, names ≠ [] → (∀ name ∈ names, levelSeparator ∉ name.toList) →
        joined names ≠ "" → joined names ≠ globalSection →
        store.interpolate? (joined names) key = Json.inherited? names key members ∧
        ∀ outer node deeper, Json.nodes names members = outer ++ node :: deeper →
          Entries.get? key node = some .null → (∀ below ∈ deeper, Json.valueAt? key below = none) →
          store.interpolate? (joined names) key = some .null := by
  have merged := empty.mergeMembers_eq 0 [] members
  refine ⟨_, _, congrArg Except.ok merged, fun names key some free notEmpty notGlobal => ?_⟩
  have answer : (empty.setAll ((Json.memberLeaves members).map fun leaf =>
      .ofLeaf leaf.1 leaf.2)).interpolate? (joined names) key =
        Json.inherited? names key members := by
    rw [interpolate?_joined _ some free notEmpty notGlobal, getLast?_levels nested noGlobal free]
  refine ⟨answer, fun outer node deeper way null hidden => ?_⟩
  have here : Json.valueAt? key node = .some .null := by
    rw [Json.valueAt?, null]
    rfl
  refine answer.trans ?_
  rw [Json.inherited?, way, List.filterMap_append, List.filterMap_cons, here,
    List.filterMap_eq_nil_iff.mpr hidden]
  exact List.getLast?_concat

/-- A document of three levels, in which the innermost value is null. -/
def layeredDocument : List (String × Json) :=
  [("a", .obj [("b", .obj [("x", .null)]), ("x", .bool false)]), ("x", .bool true)]

theorem isNested_layeredDocument : Json.IsNested layeredDocument := by
  have innermost : Json.IsNested [("x", .null)] := by
    refine .intro (by decide) (by decide) fun key inner member => ?_
    cases List.mem_singleton.mp member
  have middle : Json.IsNested [("b", .obj [("x", .null)]), ("x", .bool false)] := by
    refine .intro (by decide) (by decide) fun key inner member => ?_
    rcases List.mem_cons.mp member with same | later
    · cases same
      exact innermost
    · cases List.mem_singleton.mp later
  refine .intro (by decide) (by decide) fun key inner member => ?_
  rcases List.mem_cons.mp member with same | later
  · cases same
    exact middle
  · cases List.mem_singleton.mp later

theorem nested_document_inherits_layered :
    Json.IsNested layeredDocument ∧ (∀ entry ∈ layeredDocument, entry.1 ≠ globalSection) ∧
    ∃ store count, empty.mergeDocument (.obj layeredDocument) = .ok (store, count) ∧
      store.interpolate? "a.b" "x" = some .null ∧
      store.interpolate? "a.c" "x" = some (.bool false) ∧
      store.interpolate? "c.b" "x" = some (.bool true) ∧ store.interpolate? "a" "b" = none := by
  have noGlobal : ∀ entry ∈ layeredDocument, entry.1 ≠ globalSection := by decide
  obtain ⟨store, count, merged, answers⟩ :=
    nested_document_inherits layeredDocument isNested_layeredDocument noGlobal
  refine ⟨isNested_layeredDocument, noGlobal, store, count, merged, ?_, ?_, ?_, ?_⟩
  · exact (answers ["a", "b"] "x" (by decide) (by decide) (by decide) (by decide)).1
  · exact (answers ["a", "c"] "x" (by decide) (by decide) (by decide) (by decide)).1
  · exact (answers ["c", "b"] "x" (by decide) (by decide) (by decide) (by decide)).1
  · exact (answers ["a"] "b" (by decide) (by decide) (by decide) (by decide)).1

end Store
end BatchFetch
