import BatchFetch.Proofs.Session.Layers
import BatchFetch.Proofs.Store.Overlay
import BatchFetch.Proofs.Store.Size

namespace BatchFetch

theorem Json.sameMembers_iff {a b : List (String × Json)} :
    sameMembers a b = true ↔
      List.Forall₂ (fun entry other => entry.1 = other.1 ∧ same entry.2 other.2 = true) a b := by
  induction a generalizing b with
  | nil => cases b <;> simp [sameMembers]
  | cons head rest ih =>
    cases b with
    | nil => simp [sameMembers]
    | cons => simp only [sameMembers, Bool.and_eq_true, beq_iff_eq, ih, List.forall₂_cons]

/-- Two answers that are absent alike, or the same value. -/
def Json.SameAnswer : Option Json → Option Json → Prop :=
  Option.Rel fun value other => value.same other = true

namespace Dict

/-- Dictionaries that answer the same under each key. -/
def Same (a b : Dict Json) : Prop :=
  ∀ key, Json.SameAnswer (a.get? key) (b.get? key)

theorem sameMembers_iff {a b : Dict Json} :
    Json.sameMembers a.entries b.entries = true ↔ a.Same b := by
  rw [Json.sameMembers_iff]
  exact Entries.corresponds_iff_get? (fun value other => value.same other = true) a.sorted b.sorted

end Dict

namespace Store

theorem same_iff_sections {a b : Store} :
    a.same b = true ↔
      ∀ name, Option.Rel Dict.Same (a.sections.get? name) (b.sections.get? name) := by
  rw [same, Json.sameMembers_iff, List.forall₂_map_left_iff, List.forall₂_map_right_iff]
  simp only [Json.same, Dict.sameMembers_iff]
  exact Entries.corresponds_iff_get? Dict.Same a.sections.sorted b.sections.sorted

/-- Compact stores that answer the same are the same. -/
theorem Compact.same_iff {a b : Store} (compactA : a.Compact) (compactB : b.Compact) :
    a.same b = true ↔
      ∀ sectionName key, Json.SameAnswer (a.get? sectionName key) (b.get? sectionName key) := by
  rw [same_iff_sections]
  refine forall_congr' fun name => ?_
  unfold get?
  cases foundA : a.sections.get? name with
  | none =>
    cases foundB : b.sections.get? name with
    | none => exact iff_of_true .none fun _ => .none
    | some others =>
      obtain ⟨key, value, here⟩ := compactB.exists_option foundB
      refine iff_of_false nofun fun alike => ?_
      have unlike := alike key
      rw [Option.bind_some, here] at unlike
      cases unlike
  | some options =>
    cases foundB : b.sections.get? name with
    | none =>
      obtain ⟨key, value, here⟩ := compactA.exists_option foundA
      refine iff_of_false nofun fun alike => ?_
      have unlike := alike key
      rw [Option.bind_some, here] at unlike
      cases unlike
    | some others => exact Option.rel_some_some

theorem Compact.isEmpty_iff {store : Store} (compact : store.Compact) :
    store.isEmpty = true ↔ ∀ sectionName key, store.get? sectionName key = none := by
  rw [isEmpty, Dict.isEmpty_iff]
  refine forall_congr' fun name => ?_
  unfold get?
  cases found : store.sections.get? name with
  | none => exact iff_of_true rfl fun _ => rfl
  | some options =>
    obtain ⟨key, value, here⟩ := compact.exists_option found
    refine iff_of_false nofun fun absent => ?_
    have none := absent key
    rw [Option.bind_some, here] at none
    cases none

theorem compact_empty : empty.Compact := fun _ member => nomatch member

theorem Compact.restore {store : Store} (compact : store.Compact) (notes : List Saved) :
    (store.restore notes).Compact := by
  induction notes generalizing store with
  | nil => exact compact
  | cons note rest ih => exact ih (compact.undo note)

/-- A load that writes settings or fails keeps a store compact. -/
theorem Compact.allOrNothing {store : Store} (compact : store.Compact)
    {result : Except ConfigError (Store × Nat)} {settings? : Option (List Setting)}
    (writes : result.toOption = settings?.map fun settings =>
      (store.setAll settings, settings.length)) : (allOrNothing store result).2.Compact := by
  cases result with
  | error => exact compact
  | ok answer =>
    obtain ⟨settings, _, rfl⟩ := Option.map_eq_some_iff.mp writes.symm
    exact compact.setAll settings

theorem Compact.writeDocument {store : Store} (compact : store.Compact) (document : Json) :
    ((writeDocument document).on store).2.Compact := by
  rw [writeDocument_on]
  exact compact.allOrNothing (store.loadDocument_toOption document)

theorem Compact.writeText {store : Store} (compact : store.Compact) (text : String)
    (format : ConfigFormat) (readers : DocumentReaders) :
    ((writeText text format readers).on store).2.Compact := by
  rw [writeText_on]
  exact compact.allOrNothing (store.loadText_toOption text format readers)

end Store

namespace Overlays

/-- What any operations lead to, in whatever order they are done: a store, and the overlays on it that
are live. While there are any, the store is changed by overlays only. A document or a text that cannot
be loaded leaves what the attempt leaves. -/
inductive Reachable (readers : DocumentReaders) : Overlays → Prop
  | new : Reachable readers { store := .empty }
  | set {store : Store} (setting : Setting) :
      Reachable readers { store } → Reachable readers { store := store.set setting }
  | unset {store : Store} (sectionName key : String) :
      Reachable readers { store } → Reachable readers { store := store.unset sectionName key }
  | merge {store : Store} (document : Json) : Reachable readers { store } →
      Reachable readers { store := ((Store.writeDocument document).on store).2 }
  | load {store : Store} (text : String) (format : ConfigFormat) : Reachable readers { store } →
      Reachable readers { store := ((Store.writeText text format readers).on store).2 }
  | apply {overlays : Overlays} (settings : List Setting) :
      Reachable readers overlays → Reachable readers (overlays.push settings)
  | release {overlays after : Overlays} :
      Reachable readers overlays → overlays.pop? = some after → Reachable readers after

variable {readers : DocumentReaders}

/-- No operation leaves a section without options. -/
theorem Reachable.compact {overlays : Overlays} (reachable : Reachable readers overlays) :
    overlays.store.Compact := by
  induction reachable with
  | new => exact Store.compact_empty
  | set setting _ ih => exact ih.set setting
  | unset sectionName key _ ih => exact ih.unset sectionName key
  | merge document _ ih => exact ih.writeDocument document
  | load text format _ ih => exact ih.writeText text format readers
  | @apply overlays settings _ ih =>
    rw [push_store]
    exact ih.setAll settings
  | @release overlays after _ released ih =>
    obtain ⟨store, frames⟩ := overlays
    cases frames with
    | nil => cases released
    | cons notes frames =>
      obtain rfl := Option.some.inj released
      exact ih.restore notes

/-- In a store that operations lead to, no section is without options. So two such stores are equal,
or the same, just when their answers are, a store is empty just when it answers nothing, and its size
is the number of places that have a value. -/
theorem Reachable.known_from_answers {a b : Overlays} (reachable : Reachable readers a)
    (reachableToo : Reachable readers b) :
    (∀ entry ∈ a.store.sections.entries, entry.2.isEmpty = false) ∧
    (a.store = b.store ↔
      ∀ sectionName key, a.store.get? sectionName key = b.store.get? sectionName key) ∧
    (a.store.same b.store = true ↔ ∀ sectionName key,
      Json.SameAnswer (a.store.get? sectionName key) (b.store.get? sectionName key)) ∧
    (a.store.isEmpty = true ↔ ∀ sectionName key, a.store.get? sectionName key = none) ∧
    {place : String × String | (a.store.get? place.1 place.2).isSome}.encard = a.store.size := by
  have compact := reachable.compact
  have compactToo := reachableToo.compact
  refine ⟨compact, ⟨?_, compact.eq_of_get? compactToo⟩, compact.same_iff compactToo,
    compact.isEmpty_iff, a.store.encard_places⟩
  intro equal sectionName key
  rw [equal]

/-- A text that is no mapping, an overlay with a section of its own, and the end of the overlay. -/
theorem Reachable.known_from_answers_released :
    let store := Store.empty.set ⟨globalSection, "skip", .bool true⟩
    let failed := ((Store.writeText "[1]" .json .standard).on store).2
    ∃ after, (push { store := failed } [⟨"plugin", "opt", .null⟩]).pop? = some after ∧
      Reachable .standard after ∧ Reachable .standard { store } ∧
      (∀ entry ∈ after.store.sections.entries, entry.2.isEmpty = false) ∧
      (∀ sectionName key, after.store.get? sectionName key = store.get? sectionName key) ∧
      (∀ sectionName key,
        Json.SameAnswer (after.store.get? sectionName key) (store.get? sectionName key)) ∧
      (∃ sectionName key, after.store.get? sectionName key ≠ none) ∧
      {place : String × String | (after.store.get? place.1 place.2).isSome}.encard = 1 := by
  intro store failed
  let covered := push { store := failed } [⟨"plugin", "opt", .null⟩]
  let after : Overlays := { store := covered.store.restore [⟨"plugin", "opt", none⟩] }
  have released : covered.pop? = some after := rfl
  have reachable : Reachable .standard { store } := .set _ .new
  have reachableToo : Reachable .standard after :=
    .release (.apply _ (.load "[1]" .json reachable)) released
  obtain ⟨inhabited, equal, same, none, size⟩ :=
    Reachable.known_from_answers reachableToo reachable
  refine ⟨after, released, reachableToo, reachable, inhabited, ?_, ?_, ?_, ?_⟩
  · exact equal.mp (by decide +kernel)
  · exact same.mp (by decide +kernel)
  · simpa only [not_forall] using mt none.mpr (by decide +kernel)
  · rw [size]
    decide +kernel

end Overlays
end BatchFetch
