import BatchFetch.Proofs.Store.Document

namespace BatchFetch.Store

/-- A change of a store that may fail. What was written before a failure stays written. -/
abbrev Change (α : Type) := ExceptT ConfigError (StateM Store) α

/-- The answer of a change, and the store that it leaves. -/
def Change.on {α : Type} (change : Change α) (store : Store) : Except ConfigError α × Store :=
  change.run.run store

def write (setting : Setting) : Change Unit :=
  modify fun store => store.set setting

mutual
/-- Write one member of the mapping that stands for the section `parent`, and count the values
written. -/
def writeMember (parent : Option String) (key : String) : Json → Change Nat
  | .obj (first :: members) => writeMembers (some (nestedSection parent key)) (first :: members)
  | value => do
    write ⟨parent.getD globalSection, key, value⟩
    return 1

def writeMembers (parent : Option String) : List (String × Json) → Change Nat
  | [] => return 0
  | (key, value) :: rest => do
    let count ← writeMember parent key value
    let more ← writeMembers parent rest
    return count + more
end

def writeDocument : Json → Change Nat
  | .obj members => writeMembers none members
  | .null => return 0
  | other => throw (.invalidRoot other.kind)

def writeText (text : String) (format : ConfigFormat) (readers : DocumentReaders) :
    Change Nat := do
  let document ← format.parse text readers
  writeDocument document

def writeFile (files : FileSystem) (path : String) (readers : DocumentReaders) : Change Nat := do
  let format ← ConfigFormat.ofPath path
  let text ← readConfig files path
  writeText text format readers

/-- A load seen as a change: the store is the one that it answers, or the old one if it fails. -/
def allOrNothing (store : Store) :
    Except ConfigError (Store × Nat) → Except ConfigError Nat × Store
  | .ok (after, count) => (.ok count, after)
  | .error e => (.error e, store)

namespace Change

variable {α β : Type}

theorem on_pure (value : α) (store : Store) : on (pure value) store = (.ok value, store) := rfl

theorem on_bind_of_ok {change : Change α} {store after : Store} {value : α}
    (changed : change.on store = (.ok value, after)) (next : α → Change β) :
    on (change >>= next) store = (next value).on after := by
  have run : change.run.run store = (.ok value, after) := changed
  show (ExceptT.run (change >>= next)).run store = _
  rw [ExceptT.run_bind, StateT.run_bind, run]
  rfl

theorem on_lift (result : Except ConfigError α) (next : α → Change β) (store : Store) :
    on (liftM result >>= next) store =
      match result with
      | .ok value => (next value).on store
      | .error e => (.error e, store) := by
  cases result <;> rfl

end Change

theorem write_on (setting : Setting) (store : Store) :
    (write setting).on store = (.ok (), store.set setting) := rfl

mutual
theorem writeMember_on (outer : List String) (key : String) (store : Store) :
    ∀ value : Json, (writeMember (parentOf outer) key value).on store =
      (.ok value.leaves.length,
        store.setAll (value.leaves.map fun leaf => .ofLeaf (outer ++ key :: leaf.1) leaf.2))
  | .obj (first :: members) => by
    have nested := writeMembers_on (outer ++ [key]) store (first :: members)
    rw [parentOf_concat] at nested
    simpa only [writeMember, Json.leaves, List.append_assoc, List.singleton_append] using nested
  | .obj [] | .null | .bool _ | .num _ | .str _ | .arr _ => by
    rw [writeMember, Change.on_bind_of_ok (write_on _ store), Change.on_pure]
    · simp [Json.leaves, setAll, Setting.ofLeaf, sectionOf_eq]
    · simp

/-- Members are written leaf by leaf. -/
theorem writeMembers_on (outer : List String) (store : Store) :
    ∀ members : List (String × Json), (writeMembers (parentOf outer) members).on store =
      (.ok (Json.memberLeaves members).length,
        store.setAll ((Json.memberLeaves members).map fun leaf => .ofLeaf (outer ++ leaf.1) leaf.2))
  | [] => rfl
  | (key, value) :: rest => by
    rw [writeMembers, Change.on_bind_of_ok (writeMember_on outer key store value),
      Change.on_bind_of_ok (writeMembers_on outer _ rest), Change.on_pure]
    simp only [Json.memberLeaves, List.map_append, List.map_map, List.length_append,
      List.length_map, setAll_append]
    rfl
end

theorem writeDocument_on (document : Json) (store : Store) :
    (writeDocument document).on store = allOrNothing store (store.loadDocument document) := by
  cases document with
  | obj members =>
    have written := writeMembers_on [] store members
    have merged := store.mergeMembers_eq 0 [] members
    rw [Nat.zero_add] at merged
    rw [writeDocument, loadDocument, mergeDocument, show (none : Option String) = parentOf [] from rfl,
      written, merged]
    rfl
  | null => rfl
  | bool | num | str | arr => rfl

/-- Loading a text in place leaves the store as it was unless the text is loaded. -/
theorem writeText_on (text : String) (format : ConfigFormat) (readers : DocumentReaders)
    (store : Store) :
    (writeText text format readers).on store =
      allOrNothing store (store.loadText text format readers) := by
  rw [writeText, Change.on_lift, loadText]
  cases format.parse text readers with
  | error => rfl
  | ok document => exact writeDocument_on document store

theorem writeFile_on (files : FileSystem) (path : String) (readers : DocumentReaders)
    (store : Store) :
    (writeFile files path readers).on store =
      allOrNothing store (store.loadFile files path readers) := by
  rw [writeFile, Change.on_lift, loadFile]
  cases ConfigFormat.ofPath path with
  | error => rfl
  | ok format =>
    simp only
    rw [Change.on_lift]
    cases readConfig files path with
    | error => rfl
    | ok text => exact writeText_on text format readers store

end BatchFetch.Store
