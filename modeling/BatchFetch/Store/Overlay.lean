import BatchFetch.Store.Basic

namespace BatchFetch

/-- A place that an overlay has written, and what it held before. -/
structure Saved where
  sectionName : String
  key : String
  previous : Option Json
  deriving DecidableEq, Inhabited

namespace Store

/-- Write settings in order, noting the previous value of each place; the newest note is first. -/
def overlayFrom (store : Store) (notes : List Saved) : List Setting → Store × List Saved
  | [] => (store, notes)
  | setting :: rest =>
    let previous := store.get? setting.sectionName setting.key
    overlayFrom (store.set setting) (⟨setting.sectionName, setting.key, previous⟩ :: notes) rest

def overlay (store : Store) (settings : List Setting) : Store × List Saved :=
  store.overlayFrom [] settings

def undo (store : Store) (note : Saved) : Store :=
  match note.previous with
  | some value => store.set ⟨note.sectionName, note.key, value⟩
  | none => store.unset note.sectionName note.key

/-- Undo notes, the newest of which is first. -/
def restore (store : Store) (notes : List Saved) : Store :=
  notes.foldl undo store

end Store

/-- A store under overlays, the innermost of which is first. -/
structure Overlays where
  store : Store
  frames : List (List Saved) := []
  deriving DecidableEq, Inhabited

namespace Overlays

/-- Start an overlay on top of those that are there. -/
def push (overlays : Overlays) (settings : List Setting) : Overlays :=
  let (store, notes) := overlays.store.overlay settings
  ⟨store, notes :: overlays.frames⟩

/-- Release the innermost overlay. -/
def pop? (overlays : Overlays) : Option Overlays :=
  match overlays.frames with
  | [] => none
  | notes :: frames => some ⟨overlays.store.restore notes, frames⟩

def unwind (overlays : Overlays) : Store :=
  overlays.frames.foldl Store.restore overlays.store

end Overlays
end BatchFetch
