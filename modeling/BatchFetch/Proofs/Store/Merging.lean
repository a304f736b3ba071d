import BatchFetch.Proofs.Store.InPlace
import BatchFetch.Proofs.Store.Inheritance
import BatchFetch.Proofs.Store.Size

namespace BatchFetch

namespace Json

/-- Names lead from the members of a mapping to a value below it. -/
inductive Reaches : List (String × Json) → List String → Json → Prop
  | here {members : List (String × Json)} {key : String} {value : Json} :
      (key, value) ∈ members → Reaches members [key] value
  | deeper {members inner : List (String × Json)} {key : String} {names : List String}
      {value : Json} : (key, .obj inner) ∈ members → Reaches inner names value →
      Reaches members (key :: names) value

theorem leaves_obj {members : List (String × Json)} (some : members ≠ []) :
    (obj members).leaves = memberLeaves members := by
  cases members with
  | nil => exact absurd rfl some
  | cons => rw [leaves]

theorem mem_memberLeaves_of {members : List (String × Json)} {key : String} {value : Json}
    (among : (key, value) ∈ members) {names : List String} {leaf : Json}
    (within : (names, leaf) ∈ value.leaves) : (key :: names, leaf) ∈ memberLeaves members := by
  induction members with
  | nil => cases among
  | cons entry rest ih =>
    rw [memberLeaves]
    rcases List.mem_cons.mp among with rfl | later
    · exact List.mem_append_left _ (List.mem_map.mpr ⟨_, within, rfl⟩)
    · exact List.mem_append_right _ (ih later)

theorem Reaches.mem_memberLeaves {members : List (String × Json)} {names : List String}
    {value : Json} (reaches : Reaches members names value) (plain : value.isSection = false) :
    (names, value) ∈ memberLeaves members := by
  induction reaches with
  | here among =>
    refine mem_memberLeaves_of among ?_
    rw [leaves_of_not_isSection plain]
    exact List.mem_singleton_self _
  | deeper among _ ih =>
    have within := ih plain
    refine mem_memberLeaves_of among ?_
    rwa [leaves_obj]
    rintro rfl
    cases within

/-- The leaves of a mapping are what names lead to and does not stand for a section. -/
theorem mem_memberLeaves_iff {members : List (String × Json)} {names : List String} {value : Json} :
    (names, value) ∈ memberLeaves members ↔
      Reaches members names value ∧ value.isSection = false := by
  refine ⟨fun member => ?_, fun ⟨reaches, plain⟩ => reaches.mem_memberLeaves plain⟩
  induction names generalizing members with
  | nil =>
    obtain ⟨_, _, _, _, _, equal⟩ := mem_memberLeaves member
    cases equal
  | cons name names ih =>
    obtain ⟨key, top, among, below, within, equal⟩ := mem_memberLeaves member
    obtain ⟨sameNames, rfl⟩ := Prod.mk.inj equal
    obtain ⟨rfl, rfl⟩ := List.cons.inj sameNames
    cases heads : top.isSection with
    | false =>
      rw [leaves_of_not_isSection heads] at within
      obtain rfl := List.mem_singleton.mp within
      exact ⟨.here among, heads⟩
    | true =>
      obtain ⟨first, inner, rfl⟩ := exists_of_isSection heads
      rw [leaves] at within
      obtain ⟨reaches, plain⟩ := ih within
      exact ⟨.deeper among reaches, plain⟩

end Json

namespace Store

theorem hasSection_set (store : Store) (setting : Setting) (name : String) :
    (store.set setting).hasSection name = true ↔
      setting.sectionName = name ∨ store.hasSection name = true := by
  unfold hasSection set
  rw [Dict.get?_insert]
  split
  · rename_i same
    exact ⟨fun _ => Or.inl same.symm, fun _ => rfl⟩
  · rename_i different
    exact ⟨Or.inr, fun either => either.resolve_left (Ne.symm different)⟩

theorem hasSection_setAll (store : Store) (settings : List Setting) (name : String) :
    (store.setAll settings).hasSection name = true ↔
      (∃ setting ∈ settings, setting.sectionName = name) ∨ store.hasSection name = true := by
  induction settings generalizing store with
  | nil => simp
  | cons setting rest ih =>
    have step : store.setAll (setting :: rest) = (store.set setting).setAll rest := rfl
    rw [step, ih, hasSection_set, List.exists_mem_cons_iff, or_left_comm, or_assoc]

/-- Writing the same settings once more changes nothing. -/
theorem setAll_setAll (store : Store) (settings : List Setting) :
    (store.setAll settings).setAll settings = store.setAll settings := by
  refine eq_of_hasSection_of_get? (fun name => ?_) fun sectionName key => ?_
  · rw [Bool.eq_iff_iff, hasSection_setAll, hasSection_setAll, or_self_left]
  · rw [get?_setAll, get?_setAll, ← Option.or_assoc, Option.or_self]

theorem loadDocument_obj (store : Store) (members : List (String × Json)) :
    store.loadDocument (.obj members) =
      .ok (store.setAll ((Json.memberLeaves members).map fun leaf => .ofLeaf leaf.1 leaf.2),
        (Json.memberLeaves members).length) := by
  have merged := store.mergeMembers_eq 0 [] members
  rw [Nat.zero_add] at merged
  exact congrArg (fun result => Except.mapError ConfigError.invalidRoot (.ok result)) merged

/-- Merging a mapping writes its leaves, the last of those that have the same place counts, and all
other places stay as they were. The count is that of the leaves, so the store grows by no more, and
merging once more changes nothing. A null document is empty, and any other is refused before
anything is written. -/
theorem loadDocument_by_leaves (store : Store) (document : Json) :
    match document with
    | .obj members => ∃ after,
        let leaves := Json.memberLeaves members
        (∀ names value, (names, value) ∈ leaves ↔
          Json.Reaches members names value ∧ value.isSection = false) ∧
        store.loadDocument (.obj members) = .ok (after, leaves.length) ∧
        (∀ sectionName key, after.get? sectionName key =
          (Setting.last? (leaves.map fun leaf => .ofLeaf leaf.1 leaf.2) sectionName key).or
            (store.get? sectionName key)) ∧
        store.size ≤ after.size ∧ after.size ≤ store.size + leaves.length ∧
        after.loadDocument (.obj members) = .ok (after, leaves.length)
    | .null => store.loadDocument .null = .ok (store, 0)
    | other => store.loadDocument other = .error (.invalidRoot other.kind) ∧
        (writeDocument other).on store = (.error (.invalidRoot other.kind), store) := by
  cases document with
  | obj members =>
    let settings : List Setting :=
      (Json.memberLeaves members).map fun leaf => .ofLeaf leaf.1 leaf.2
    have merged (store : Store) : store.loadDocument (.obj members) =
        .ok (store.setAll settings, (Json.memberLeaves members).length) := store.loadDocument_obj members
    obtain ⟨lower, upper⟩ := store.size_setAll settings
    rw [List.length_map] at upper
    refine ⟨store.setAll settings, fun _ _ => Json.mem_memberLeaves_iff, merged store,
      store.get?_setAll settings, lower, upper, ?_⟩
    rw [merged, setAll_setAll]
  | null => rfl
  | bool | num | str | arr => exact ⟨rfl, rfl⟩

end Store
end BatchFetch
