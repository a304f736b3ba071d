import BatchFetch.Proofs.Store.LookUp
import BatchFetch.Store.Overlay

namespace BatchFetch

namespace Store

theorem overlayFrom_store (store : Store) (notes : List Saved) (settings : List Setting) :
    (store.overlayFrom notes settings).1 = store.setAll settings := by
  induction settings generalizing store notes with
  | nil => rfl
  | cons setting rest ih => exact ih (store.set setting) _

@[simp] theorem overlay_store (store : Store) (settings : List Setting) :
    (store.overlay settings).1 = store.setAll settings :=
  store.overlayFrom_store [] settings

theorem get?_undo (store : Store) (note : Saved) (sectionName key : String) :
    (store.undo note).get? sectionName key =
      if sectionName = note.sectionName ∧ key = note.key then note.previous
      else store.get? sectionName key := by
  unfold undo
  cases previous : note.previous with
  | none => exact store.get?_unset note.sectionName note.key sectionName key
  | some value => exact store.get?_set ⟨note.sectionName, note.key, value⟩ sectionName key

/-- What is undone is undone alike in all stores. -/
theorem get?_restore_congr {a b : Store} {sectionName key : String}
    (same : a.get? sectionName key = b.get? sectionName key) (notes : List Saved) :
    (a.restore notes).get? sectionName key = (b.restore notes).get? sectionName key := by
  induction notes generalizing a b with
  | nil => exact same
  | cons note rest ih =>
    have undone : (a.undo note).get? sectionName key = (b.undo note).get? sectionName key := by
      rw [get?_undo, get?_undo, same]
    exact ih undone

theorem get?_restore_overlayFrom (store : Store) (notes : List Saved) (settings : List Setting)
    (sectionName key : String) :
    ((store.overlayFrom notes settings).1.restore (store.overlayFrom notes settings).2).get?
      sectionName key = (store.restore notes).get? sectionName key := by
  induction settings generalizing store notes with
  | nil => rfl
  | cons setting rest ih =>
    have undone : ((store.set setting).undo
        ⟨setting.sectionName, setting.key, store.get? setting.sectionName setting.key⟩).get?
          sectionName key = store.get? sectionName key := by
      rw [get?_undo, get?_set]
      split
      · rename_i here
        rw [here.1, here.2]
      · rfl
    rw [overlayFrom, ih, restore, List.foldl_cons]
    exact get?_restore_congr undone notes

/-- Whether or not sections of it are empty, a store answers as before once an overlay is undone. -/
theorem get?_restore_overlay (store : Store) (settings : List Setting) (sectionName key : String) :
    ((store.overlay settings).1.restore (store.overlay settings).2).get? sectionName key =
      store.get? sectionName key :=
  store.get?_restore_overlayFrom [] settings sectionName key

theorem Compact.undo {store : Store} (compact : store.Compact) (note : Saved) :
    (store.undo note).Compact := by
  unfold Store.undo
  cases note.previous with
  | none => exact compact.unset note.sectionName note.key
  | some value => exact compact.set _

/-- Undoing the note of a write gives back the store; a section that the write created is gone. -/
theorem Compact.undo_set {store : Store} (compact : store.Compact) (setting : Setting) :
    (store.set setting).undo
        ⟨setting.sectionName, setting.key, store.get? setting.sectionName setting.key⟩ = store := by
  apply ((compact.set setting).undo _).eq_of_get? compact
  intro sectionName key
  rw [get?_undo, get?_set]
  split
  · rename_i same
    rw [same.1, same.2]
  · rfl

/-- The notes of later writes are undone first, so that those from before are left to be undone. -/
theorem Compact.restore_overlayFrom {store : Store} (compact : store.Compact)
    (notes : List Saved) (settings : List Setting) :
    (store.overlayFrom notes settings).1.restore (store.overlayFrom notes settings).2 =
      store.restore notes := by
  induction settings generalizing store notes with
  | nil => rfl
  | cons setting rest ih =>
    have later := ih (compact.set setting)
      (⟨setting.sectionName, setting.key, store.get? setting.sectionName setting.key⟩ :: notes)
    have undone := compact.undo_set setting
    rw [overlayFrom, later, restore, List.foldl_cons, undone]
    rfl

theorem Compact.restore_overlay {store : Store} (compact : store.Compact)
    (settings : List Setting) :
    (store.overlay settings).1.restore (store.overlay settings).2 = store :=
  compact.restore_overlayFrom [] settings

end Store

/-- A live overlay: the store on which it was started, and the settings that it has written. -/
structure Guard where
  below : Store
  settings : List Setting

/-- What the innermost live overlay that is about an option makes of it. -/
def Guard.latest? (guards : List Guard) (sectionName key : String) : Option Json :=
  guards.findSome? fun guard => Setting.last? guard.settings sectionName key

theorem Guard.latest?_cons (guard : Guard) (guards : List Guard) (sectionName key : String) :
    latest? (guard :: guards) sectionName key =
      (Setting.last? guard.settings sectionName key).or (latest? guards sectionName key) := by
  rw [latest?, List.findSome?_cons]
  cases Setting.last? guard.settings sectionName key with
  | none => rfl
  | some value => rfl

namespace Overlays

/-- A well-nested run on a store, at any moment: the overlays that are live, innermost first, and
what has become of the store. Only the innermost overlay may be released. -/
inductive Run (initial : Store) : List Guard → Overlays → Prop
  | start : Run initial [] { store := initial }
  | apply {guards : List Guard} {overlays : Overlays} (settings : List Setting) :
      Run initial guards overlays →
      Run initial (⟨overlays.store, settings⟩ :: guards) (overlays.push settings)
  | release {guard : Guard} {guards : List Guard} {overlays after : Overlays} :
      Run initial (guard :: guards) overlays → overlays.pop? = some after →
      Run initial guards after

/-- The overlays are exactly those that the live guards have started, one on top of the other. -/
def Layered (initial : Store) : List Guard → Overlays → Prop
  | [], overlays => overlays = { store := initial }
  | guard :: guards, overlays =>
    ∃ frames, overlays = push ⟨guard.below, frames⟩ guard.settings ∧
      Layered initial guards ⟨guard.below, frames⟩

theorem push_store (overlays : Overlays) (settings : List Setting) :
    (overlays.push settings).store = overlays.store.setAll settings :=
  overlays.store.overlay_store settings

/-- Releasing an overlay right after it was started changes nothing. -/
theorem pop?_push {overlays : Overlays} (compact : overlays.store.Compact)
    (settings : List Setting) : (overlays.push settings).pop? = some overlays := by
  simp only [push, pop?, compact.restore_overlay]

theorem unwind_push {overlays : Overlays} (compact : overlays.store.Compact)
    (settings : List Setting) : (overlays.push settings).unwind = overlays.unwind := by
  simp only [push, unwind, List.foldl_cons, compact.restore_overlay]

theorem Layered.compact {initial : Store} (compact : initial.Compact) {guards : List Guard}
    {overlays : Overlays} (layers : Layered initial guards overlays) :
    overlays.store.Compact := by
  induction guards generalizing overlays with
  | nil => rw [layers]; exact compact
  | cons guard guards ih =>
    obtain ⟨frames, rfl, lower⟩ := layers
    rw [push_store]
    exact (ih lower).setAll guard.settings

theorem Layered.get? {initial : Store} {guards : List Guard} {overlays : Overlays}
    (layers : Layered initial guards overlays) (sectionName key : String) :
    overlays.store.get? sectionName key =
      (Guard.latest? guards sectionName key).or (initial.get? sectionName key) := by
  induction guards generalizing overlays with
  | nil => rw [layers]; rfl
  | cons guard guards ih =>
    obtain ⟨frames, rfl, lower⟩ := layers
    rw [push_store, Store.get?_setAll, ih lower, Guard.latest?_cons, Option.or_assoc]

theorem Layered.pop? {initial : Store} (compact : initial.Compact) {guard : Guard}
    {guards : List Guard} {overlays : Overlays} (layers : Layered initial (guard :: guards) overlays) :
    ∃ after, overlays.pop? = some after ∧ after.store = guard.below ∧
      Layered initial guards after := by
  obtain ⟨frames, rfl, lower⟩ := layers
  exact ⟨_, pop?_push (lower.compact compact) guard.settings, rfl, lower⟩

theorem Layered.unwind {initial : Store} (compact : initial.Compact) {guards : List Guard}
    {overlays : Overlays} (layers : Layered initial guards overlays) :
    overlays.unwind = initial := by
  induction guards generalizing overlays with
  | nil => rw [layers]; rfl
  | cons guard guards ih =>
    obtain ⟨frames, rfl, lower⟩ := layers
    rw [unwind_push (lower.compact compact)]
    exact ih lower

/-- Every moment of a well-nested run is layered: starting an overlay adds a layer, and releasing
the innermost one uncovers the layers below as they were. -/
theorem Run.layered {initial : Store} (compact : initial.Compact) {guards : List Guard}
    {overlays : Overlays} (run : Run initial guards overlays) :
    Layered initial guards overlays := by
  induction run with
  | start => rfl
  | @apply guards overlays settings _ ih => exact ⟨overlays.frames, rfl, ih⟩
  | release _ released ih =>
    obtain ⟨after, popped, _, lower⟩ := ih.pop? compact
    obtain rfl := Option.some.inj (popped.symm.trans released)
    exact lower

/-- At every moment of a well-nested run, each option has the value that the innermost live overlay
about it gave last, or else its original one; releasing the innermost overlay gives back the store
on which it was started; and releasing all of them gives back the original store. -/
theorem Run.reads_latest_and_restores {initial : Store} (compact : initial.Compact) {guards : List Guard}
    {overlays : Overlays} (run : Run initial guards overlays) :
    (∀ sectionName key, overlays.store.get? sectionName key =
      (Guard.latest? guards sectionName key).or (initial.get? sectionName key)) ∧
    overlays.pop?.map Overlays.store = guards.head?.map Guard.below ∧
    overlays.unwind = initial := by
  have layers := run.layered compact
  refine ⟨layers.get?, ?_, layers.unwind compact⟩
  cases guards with
  | nil => rw [layers]; rfl
  | cons guard guards =>
    obtain ⟨after, popped, restored, _⟩ := layers.pop? compact
    rw [popped, Option.map_some, restored]
    rfl

theorem Run.reads_latest_and_restores_new_section :
    let initial := Store.empty.set ⟨globalSection, "skip", .bool false⟩
    let outer : List Setting :=
      [⟨globalSection, "skip", .bool true⟩, ⟨globalSection, "skip", .str "abort:3"⟩]
    let inner : List Setting := [⟨"plugin", "opt", .null⟩]
    let overlays := (push { store := initial } outer).push inner
    overlays.store.get? globalSection "skip" = some (.str "abort:3") ∧
      overlays.store.get? "plugin" "opt" = some .null ∧
      overlays.pop?.map Overlays.store = some (initial.setAll outer) ∧
      overlays.unwind = initial := by
  intro initial outer inner overlays
  have compact : initial.Compact := by decide
  obtain ⟨reads, released, unwound⟩ :=
    Run.reads_latest_and_restores compact (.apply inner (.apply outer .start))
  refine ⟨?_, ?_, ?_, unwound⟩
  · rw [reads]; decide
  · rw [reads]; decide
  · rw [released]
    exact congrArg some (push_store { store := initial } outer)

end Overlays
end BatchFetch
