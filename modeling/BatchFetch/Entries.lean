namespace BatchFetch.Entries

variable {α : Type}

/-- Put an entry into its place; a value already under the key is replaced. -/
def insert (key : String) (value : α) : List (String × α) → List (String × α)
  | [] => [(key, value)]
  | (k, v) :: rest =>
    if key < k then (key, value) :: (k, v) :: rest
    else if key = k then (key, value) :: rest
    else (k, v) :: insert key value rest

def get? (key : String) : List (String × α) → Option α
  | [] => none
  | (k, v) :: rest => if key = k then some v else get? key rest

def erase (key : String) : List (String × α) → List (String × α)
  | [] => []
  | (k, v) :: rest => if key = k then rest else (k, v) :: erase key rest

def Sorted (entries : List (String × α)) : Prop :=
  entries.Pairwise fun a b => a.1 < b.1

theorem mem_insert {key : String} {value : α} {entry : String × α} {entries : List (String × α)}
    (h : entry ∈ insert key value entries) : entry = (key, value) ∨ entry ∈ entries := by
  induction entries with
  | nil => simpa [insert] using h
  | cons head rest ih => grind [insert]

theorem mem_erase {key : String} {entry : String × α} {entries : List (String × α)}
    (h : entry ∈ erase key entries) : entry ∈ entries := by
  induction entries with
  | nil => simp [erase] at h
  | cons head rest ih => grind [erase]

theorem lt_of_not_lt_of_ne {a b : String} (notLess : ¬a < b) (different : a ≠ b) : b < a := by
  by_cases less : b < a
  · exact less
  · exact absurd (String.le_antisymm (String.not_lt.1 less) (String.not_lt.1 notLess)) different

theorem sorted_insert (key : String) (value : α) {entries : List (String × α)}
    (sorted : Sorted entries) : Sorted (insert key value entries) := by
  induction entries with
  | nil => simp [insert, Sorted]
  | cons head rest ih =>
    obtain ⟨k, v⟩ := head
    obtain ⟨headLess, restSorted⟩ := List.pairwise_cons.1 sorted
    unfold insert
    split
    · rename_i less
      refine List.pairwise_cons.2 ⟨fun entry member => ?_, sorted⟩
      rcases List.mem_cons.1 member with same | later
      · rw [same]; exact less
      · exact String.lt_trans less (headLess entry later)
    · rename_i notLess
      split
      · rename_i same
        subst same
        exact List.pairwise_cons.2 ⟨headLess, restSorted⟩
      · rename_i different
        refine List.pairwise_cons.2 ⟨fun entry member => ?_, ih restSorted⟩
        rcases mem_insert member with same | later
        · rw [same]; exact lt_of_not_lt_of_ne notLess different
        · exact headLess entry later

theorem sorted_erase (key : String) {entries : List (String × α)} (sorted : Sorted entries) :
    Sorted (erase key entries) := by
  induction entries with
  | nil => exact sorted
  | cons head rest ih =>
    obtain ⟨k, v⟩ := head
    obtain ⟨headLess, restSorted⟩ := List.pairwise_cons.1 sorted
    unfold erase
    split
    · exact restSorted
    · exact List.pairwise_cons.2
        ⟨fun entry member => headLess entry (mem_erase member), ih restSorted⟩

end BatchFetch.Entries

namespace BatchFetch

/-- A dictionary with string keys in ascending order. -/
structure Dict (α : Type) where
  entries : List (String × α) := []
  sorted : Entries.Sorted entries := by exact List.Pairwise.nil

namespace Dict

variable {α : Type}

theorem ext {a b : Dict α} (h : a.entries = b.entries) : a = b := by
  cases a; cases b; simp_all

instance [DecidableEq α] : DecidableEq (Dict α) := fun a b =>
  decidable_of_iff (a.entries = b.entries) ⟨ext, fun h => h ▸ rfl⟩

def empty : Dict α := {}

instance : Inhabited (Dict α) := ⟨empty⟩

def get? (d : Dict α) (key : String) : Option α :=
  Entries.get? key d.entries

def insert (d : Dict α) (key : String) (value : α) : Dict α :=
  ⟨Entries.insert key value d.entries, Entries.sorted_insert key value d.sorted⟩

def erase (d : Dict α) (key : String) : Dict α :=
  ⟨Entries.erase key d.entries, Entries.sorted_erase key d.sorted⟩

def isEmpty (d : Dict α) : Bool :=
  d.entries.isEmpty

def size (d : Dict α) : Nat :=
  d.entries.length

end Dict
end BatchFetch
