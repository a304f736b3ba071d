import BatchFetch.Entries
import Mathlib.Data.List.Forall2

namespace BatchFetch

namespace Entries

variable {α : Type}

theorem get?_insert (key other : String) (value : α) (entries : List (String × α)) :
    get? other (insert key value entries) =
      if other = key then some value else get? other entries := by
  induction entries with
  | nil => simp [insert, get?]
  | cons head rest ih =>
    obtain ⟨k, v⟩ := head
    unfold insert
    split
    · simp only [get?]
    · split
      · rename_i same
        subst same
        simp only [get?]
        split <;> rfl
      · rename_i different
        simp only [get?, ih]
        by_cases atHead : other = k
        · subst atHead
          rw [if_pos rfl, if_neg (Ne.symm different), if_pos rfl]
        · rw [if_neg atHead, if_neg atHead]

theorem mem_of_get? {key : String} {value : α} {entries : List (String × α)}
    (found : get? key entries = some value) : (key, value) ∈ entries := by
  induction entries with
  | nil => cases found
  | cons head rest ih =>
    obtain ⟨k, v⟩ := head
    simp only [get?] at found
    split at found
    · rename_i same
      cases found
      rw [same]
      exact List.mem_cons_self
    · exact List.mem_cons_of_mem _ (ih found)

/-- The keys behind the head of an ordered list are greater than that of the head. -/
theorem get?_rest_of_sorted {key : String} {value : α} {rest : List (String × α)}
    (sorted : Sorted ((key, value) :: rest)) {other : String} (notAfter : ¬key < other) :
    get? other rest = none := by
  cases found : get? other rest with
  | none => rfl
  | some later =>
    have less : key < other := (List.pairwise_cons.1 sorted).1 _ (mem_of_get? found)
    exact absurd less notAfter

theorem get?_erase (key other : String) {entries : List (String × α)} (sorted : Sorted entries) :
    get? other (erase key entries) = if other = key then none else get? other entries := by
  induction entries with
  | nil => simp [erase, get?]
  | cons head rest ih =>
    obtain ⟨k, v⟩ := head
    have restSorted := (List.pairwise_cons.1 sorted).2
    unfold erase
    split
    · rename_i same
      subst same
      by_cases atHead : other = key
      · subst atHead
        rw [if_pos rfl, get?_rest_of_sorted sorted (String.lt_irrefl _)]
      · simp only [get?, if_neg atHead]
    · rename_i different
      simp only [get?, ih restSorted]
      by_cases atHead : other = k
      · subst atHead
        rw [if_pos rfl, if_pos rfl, if_neg (Ne.symm different)]
      · rw [if_neg atHead, if_neg atHead]

/-- An entry of an ordered list is what is found under its key. -/
theorem mem_iff_get? {key : String} {value : α} {entries : List (String × α)}
    (sorted : Sorted entries) : (key, value) ∈ entries ↔ get? key entries = some value := by
  refine ⟨fun member => ?_, mem_of_get?⟩
  induction entries with
  | nil => cases member
  | cons head rest ih =>
    obtain ⟨k, v⟩ := head
    obtain ⟨headLess, restSorted⟩ := List.pairwise_cons.1 sorted
    rcases List.mem_cons.1 member with same | later
    · cases same
      rw [get?, if_pos rfl]
    · have different : key ≠ k := (String.ne_of_lt (headLess _ later)).symm
      rw [get?, if_neg different, ih restSorted later]

/-- Two ordered lists correspond entry by entry just when what is found under each key does. -/
theorem corresponds_iff_get? {β : Type} (related : α → β → Prop) {a : List (String × α)}
    {b : List (String × β)} (sortedA : Sorted a) (sortedB : Sorted b) :
    List.Forall₂ (fun entry other => entry.1 = other.1 ∧ related entry.2 other.2) a b ↔
      ∀ key, Option.Rel related (get? key a) (get? key b) := by
  constructor
  · intro alike key
    induction alike with
    | nil => exact .none
    | @cons entry other restA restB heads _ ih =>
      obtain ⟨k, v⟩ := entry
      obtain ⟨l, w⟩ := other
      obtain ⟨rfl, values⟩ := heads
      simp only [get?]
      split
      · exact .some values
      · exact ih (List.pairwise_cons.1 sortedA).2 (List.pairwise_cons.1 sortedB).2
  · intro alike
    induction a generalizing b with
    | nil =>
      cases b with
      | nil => exact .nil
      | cons head rest =>
        have atHead := alike head.1
        rw [get?, get?, if_pos rfl] at atHead
        cases atHead
    | cons headA restA ih =>
      cases b with
      | nil =>
        have atHead := alike headA.1
        rw [get?, get?, if_pos rfl] at atHead
        cases atHead
      | cons headB restB =>
        obtain ⟨keyA, valueA⟩ := headA
        obtain ⟨keyB, valueB⟩ := headB
        -- the smaller of the two heads could not be found in the other list
        have keys : keyA = keyB := by
          apply String.le_antisymm
          · apply String.not_lt.1
            intro less
            have atB := alike keyB
            simp only [get?, if_true, if_neg (String.ne_of_lt less)] at atB
            rw [get?_rest_of_sorted sortedA (String.lt_asymm less)] at atB
            cases atB
          · apply String.not_lt.1
            intro less
            have atA := alike keyA
            simp only [get?, if_true, if_neg (String.ne_of_lt less)] at atA
            rw [get?_rest_of_sorted sortedB (String.lt_asymm less)] at atA
            cases atA
        subst keys
        have values : related valueA valueB := by
          have atHead := alike keyA
          simp only [get?, if_true] at atHead
          exact Option.rel_some_some.1 atHead
        refine .cons ⟨rfl, values⟩
          (ih (List.pairwise_cons.1 sortedA).2 (List.pairwise_cons.1 sortedB).2 fun key => ?_)
        by_cases atHead : key = keyA
        · subst atHead
          rw [get?_rest_of_sorted sortedA (String.lt_irrefl _),
            get?_rest_of_sorted sortedB (String.lt_irrefl _)]
          exact .none
        · simpa only [get?, if_neg atHead] using alike key

/-- Two ordered lists with the same look-ups are equal. -/
theorem eq_of_get? {a b : List (String × α)} (sortedA : Sorted a) (sortedB : Sorted b)
    (same : ∀ key, get? key a = get? key b) : a = b := by
  have alike := (corresponds_iff_get? Eq sortedA sortedB).2 fun key => by
    rw [same]
    cases get? key b with
    | none => exact .none
    | some => exact .some rfl
  rw [← List.forall₂_eq_eq_eq]
  exact alike.imp fun _ _ both => Prod.ext both.1 both.2

end Entries

namespace Dict

variable {α : Type}

@[simp] theorem get?_empty (key : String) : (empty : Dict α).get? key = none := rfl

theorem get?_insert (d : Dict α) (key other : String) (value : α) :
    (d.insert key value).get? other = if other = key then some value else d.get? other :=
  Entries.get?_insert key other value d.entries

theorem get?_erase (d : Dict α) (key other : String) :
    (d.erase key).get? other = if other = key then none else d.get? other :=
  Entries.get?_erase key other d.sorted

/-- Dictionaries with the same look-ups are equal. -/
theorem eq_of_get? {a b : Dict α} (same : ∀ key, a.get? key = b.get? key) : a = b :=
  ext (Entries.eq_of_get? a.sorted b.sorted same)

theorem mem_of_get? {d : Dict α} {key : String} {value : α} (found : d.get? key = some value) :
    (key, value) ∈ d.entries :=
  Entries.mem_of_get? found

theorem mem_iff_get? {d : Dict α} {key : String} {value : α} :
    (key, value) ∈ d.entries ↔ d.get? key = some value :=
  Entries.mem_iff_get? d.sorted

theorem nodup_keys (d : Dict α) : (d.entries.map Prod.fst).Nodup :=
  List.pairwise_map.mpr (d.sorted.imp fun less => String.ne_of_lt less)

theorem isEmpty_iff {d : Dict α} : d.isEmpty = true ↔ ∀ key, d.get? key = none := by
  constructor
  · intro none key
    have nil : d.entries = [] := List.isEmpty_iff.1 none
    rw [get?, nil]
    rfl
  · intro absent
    have same : d = empty := eq_of_get? absent
    rw [same]
    rfl

end Dict
end BatchFetch
