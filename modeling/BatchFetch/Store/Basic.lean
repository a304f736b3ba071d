import BatchFetch.Entries
import BatchFetch.Json.Value
import BatchFetch.Text.Cut
import BatchFetch.Text.Utf8

namespace BatchFetch

/-- The section of the options that belong to no section. -/
def globalSection : String := "__global__"

/-- The character between the levels of a section name. -/
def levelSeparator : Char := '.'

/-- One option with its value: what a directive, a command-line option or a configuration file
writes into the store. -/
structure Setting where
  sectionName : String
  key : String
  value : Json
  deriving DecidableEq, Inhabited

/-- The store has a dictionary of options for each section. -/
structure Store where
  sections : Dict (Dict Json) := {}
  deriving DecidableEq, Inhabited

namespace Store

def empty : Store := {}

def get? (store : Store) (sectionName key : String) : Option Json :=
  (store.sections.get? sectionName).bind (·.get? key)

def getGlobal? (store : Store) (key : String) : Option Json :=
  store.get? globalSection key

/-- Write a value; an old value at the place is replaced. -/
def set (store : Store) (setting : Setting) : Store :=
  let options := (store.sections.get? setting.sectionName).getD {}
  ⟨store.sections.insert setting.sectionName (options.insert setting.key setting.value)⟩

def setAll (store : Store) (settings : List Setting) : Store :=
  settings.foldl set store

/-- Remove a value. A section that is left without options is removed too. -/
def unset (store : Store) (sectionName key : String) : Store :=
  match store.sections.get? sectionName with
  | none => store
  | some options =>
    let left := options.erase key
    ⟨if left.isEmpty then store.sections.erase sectionName
      else store.sections.insert sectionName left⟩

/-- The levels of a section name, outermost first: its parts in front of each separator, and the
whole name. `seen` is the reversed part that has been passed. -/
def levelsFrom (seen : List Char) : List Char → List String
  | [] => [String.ofList seen.reverse]
  | c :: rest =>
    if c = levelSeparator then String.ofList seen.reverse :: levelsFrom (c :: seen) rest
    else levelsFrom (c :: seen) rest

def levels (sectionName : String) : List String :=
  levelsFrom [] sectionName.toList

/-- Walk along a name from part to part, where the next part starts at the byte `start`, and look an
option up for each level that ends with a part. The last value that was found stays. The walk breaks
off where the name cannot be cut. -/
def walk? (store : Store) (name : List Char) (key : String) (start : Nat) (found : Option Json) :
    List (List Char) → Option (Option Json)
  | [] => some found
  | part :: rest =>
    let stop := start + Text.Utf8.size part
    match Text.Utf8.front? stop name with
    | none => none
    | some level =>
      store.walk? name key (stop + levelSeparator.utf8Size)
        ((store.get? (String.ofList level) key).or found) rest

/-- The walk along the whole name of a section, which starts with the global value. -/
def walkLevels? (store : Store) (sectionName key : String) : Option (Option Json) :=
  store.walk? sectionName.toList key 0 (store.getGlobal? key)
    (Text.pieces levelSeparator sectionName.toList)

/-- A walk that has come to a part of a name passes the levels that are left. -/
theorem walk?_eq (store : Store) (key : String) (before rest : List Char) (found : Option Json) :
    store.walk? (before ++ rest) key (Text.Utf8.size before) found
        (Text.pieces levelSeparator rest) =
      some ((levelsFrom before.reverse rest).foldl
        (fun found level => (store.get? level key).or found) found) := by
  induction rest generalizing before found with
  | nil =>
    have whole := Text.Utf8.front?_append before []
    rw [List.append_nil] at whole
    rw [List.append_nil, Text.pieces, walk?, Text.Utf8.size, Nat.add_zero, whole, levelsFrom,
      List.reverse_reverse]
    rfl
  | cons c rest ih =>
    have further := ih (before ++ [c])
    rw [List.append_assoc, List.singleton_append, List.reverse_append, List.reverse_singleton,
      List.singleton_append, Text.Utf8.size_append, Text.Utf8.size, Text.Utf8.size, Nat.add_zero]
      at further
    rw [Text.pieces, levelsFrom]
    split
    · -- a part ends here, and the level in front of it is cut off
      rename_i separates
      subst separates
      rw [walk?, Text.Utf8.size, Nat.add_zero, Text.Utf8.front?_append, List.reverse_reverse]
      exact further _
    · -- the first part is longer by a character, and ends where it did
      have here := further found
      cases cut : Text.pieces levelSeparator rest with
      | nil => exact absurd cut (Text.pieces_ne_nil _ _)
      | cons part more =>
        rw [cut, walk?, Nat.add_assoc] at here
        rw [walk?, Text.Utf8.size]
        exact here

theorem walkLevels?_eq (store : Store) (sectionName key : String) :
    store.walkLevels? sectionName key =
      some ((levels sectionName).foldl (fun found level => (store.get? level key).or found)
        (store.getGlobal? key)) :=
  store.walk?_eq key [] sectionName.toList _

/-- The value of an option for a section: that of its most specific level that has the option, or
else the global one. -/
def interpolate? (store : Store) (sectionName key : String) : Option Json :=
  if sectionName = "" ∨ sectionName = globalSection then store.getGlobal? key
  else (store.walkLevels? sectionName key).get (by rw [walkLevels?_eq]; rfl)

theorem interpolate?_eq (store : Store) (sectionName key : String) :
    store.interpolate? sectionName key =
      if sectionName = "" ∨ sectionName = globalSection then store.getGlobal? key
      else (levels sectionName).foldl (fun found level => (store.get? level key).or found)
        (store.getGlobal? key) := by
  simp only [interpolate?, walkLevels?_eq, Option.get_some]

def isEmpty (store : Store) : Bool :=
  store.sections.isEmpty

/-- All stored values, by section and key. -/
def toList (store : Store) : List Setting :=
  store.sections.entries.flatMap fun (sectionName, options) =>
    options.entries.map fun (key, value) => ⟨sectionName, key, value⟩

def size (store : Store) : Nat :=
  store.toList.length

/-- Whether two stores have the same sections and keys with the same values, where the two zeros of
binary64 count as one number. -/
def same (a b : Store) : Bool :=
  let shape (store : Store) := store.sections.entries.map fun (sectionName, options) =>
    (sectionName, Json.obj options.entries)
  Json.sameMembers (shape a) (shape b)

end Store
end BatchFetch
