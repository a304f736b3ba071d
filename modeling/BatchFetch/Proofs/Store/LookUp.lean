import BatchFetch.Proofs.Entries
import BatchFetch.Store.Basic

namespace BatchFetch

namespace Setting

/-- Whether a setting is about an option. -/
def isAt (setting : Setting) (sectionName key : String) : Bool :=
  setting.sectionName == sectionName && setting.key == key

/-- The value that the last setting about an option gives to it. -/
def last? (settings : List Setting) (sectionName key : String) : Option Json :=
  (settings.reverse.find? (·.isAt sectionName key)).map (·.value)

theorem isAt_iff {setting : Setting} {sectionName key : String} :
    setting.isAt sectionName key = true ↔ sectionName = setting.sectionName ∧ key = setting.key := by
  simp only [isAt, Bool.and_eq_true, beq_iff_eq]
  constructor <;> rintro ⟨rfl, rfl⟩ <;> exact ⟨rfl, rfl⟩

@[simp] theorem last?_nil (sectionName key : String) : last? [] sectionName key = none := rfl

theorem last?_append (first second : List Setting) (sectionName key : String) :
    last? (first ++ second) sectionName key =
      (last? second sectionName key).or (last? first sectionName key) := by
  simp only [last?, List.reverse_append, List.find?_append, Option.map_or]

theorem last?_singleton (setting : Setting) (sectionName key : String) :
    last? [setting] sectionName key =
      if sectionName = setting.sectionName ∧ key = setting.key then some setting.value
      else none := by
  by_cases here : setting.isAt sectionName key
  · rw [if_pos (isAt_iff.1 here)]
    simp [last?, here]
  · rw [if_neg fun at' => here (isAt_iff.2 at')]
    simp [last?, here]

/-- Options that no setting is about have no last setting. -/
theorem last?_eq_none {settings : List Setting} {sectionName key : String}
    (absent : ∀ setting ∈ settings, ¬(setting.sectionName = sectionName ∧ setting.key = key)) :
    last? settings sectionName key = none := by
  rw [last?, Option.map_eq_none_iff, List.find?_eq_none]
  intro setting member at'
  obtain ⟨sameSection, sameKey⟩ := isAt_iff.mp at'
  exact absent setting (List.mem_reverse.mp member) ⟨sameSection.symm, sameKey.symm⟩

end Setting

namespace Store

/-- No section is left without options. -/
def Compact (store : Store) : Prop :=
  ∀ entry ∈ store.sections.entries, entry.2.isEmpty = false

instance (store : Store) : Decidable store.Compact :=
  inferInstanceAs (Decidable (∀ entry ∈ store.sections.entries, entry.2.isEmpty = false))

theorem get?_set (store : Store) (setting : Setting) (sectionName key : String) :
    (store.set setting).get? sectionName key =
      if sectionName = setting.sectionName ∧ key = setting.key then some setting.value
      else store.get? sectionName key := by
  unfold get? set
  rw [Dict.get?_insert]
  by_cases sameSection : sectionName = setting.sectionName
  · subst sameSection
    rw [if_pos rfl, Option.bind_some, Dict.get?_insert]
    cases found : store.sections.get? setting.sectionName with
    | none => simp only [Option.getD_none, Option.bind_none, true_and]; rfl
    | some options => simp only [Option.getD_some, Option.bind_some, true_and]
  · rw [if_neg sameSection, if_neg fun both => sameSection both.1]

theorem get?_setAll (store : Store) (settings : List Setting) (sectionName key : String) :
    (store.setAll settings).get? sectionName key =
      (Setting.last? settings sectionName key).or (store.get? sectionName key) := by
  induction settings generalizing store with
  | nil => rfl
  | cons setting rest ih =>
    have step : store.setAll (setting :: rest) = (store.set setting).setAll rest := rfl
    rw [step, ih, get?_set, ← List.singleton_append, Setting.last?_append,
      Setting.last?_singleton, Option.or_assoc]
    split <;> rfl

@[simp] theorem setAll_nil (store : Store) : store.setAll [] = store := rfl

theorem setAll_append (store : Store) (first second : List Setting) :
    store.setAll (first ++ second) = (store.setAll first).setAll second :=
  List.foldl_append

theorem get?_unset (store : Store) (sectionName key otherSection otherKey : String) :
    (store.unset sectionName key).get? otherSection otherKey =
      if otherSection = sectionName ∧ otherKey = key then none
      else store.get? otherSection otherKey := by
  unfold get? unset
  cases found : store.sections.get? sectionName with
  | none =>
    simp only
    split
    · rename_i same
      rw [same.1, found]
      rfl
    · rfl
  | some options =>
    have left (name : String) : (options.erase key).get? name =
        if name = key then none else options.get? name := options.get?_erase key name
    by_cases sameSection : otherSection = sectionName
    · subst sameSection
      simp only [true_and, found, Option.bind_some]
      by_cases none : (options.erase key).isEmpty = true
      · -- the whole section is gone, and so is every option that was left in it
        rw [if_pos none, Dict.get?_erase, if_pos rfl, Option.bind_none, ← left,
          Dict.isEmpty_iff.1 none]
      · rw [if_neg none, Dict.get?_insert, if_pos rfl, Option.bind_some, left]
    · rw [if_neg fun both => sameSection both.1]
      simp only
      split
      · rw [Dict.get?_erase, if_neg sameSection]
      · rw [Dict.get?_insert, if_neg sameSection]

theorem Compact.set {store : Store} (compact : store.Compact) (setting : Setting) :
    (store.set setting).Compact := by
  intro entry member
  rcases Entries.mem_insert member with rfl | old
  · rw [Bool.eq_false_iff]
    intro none
    have absent := Dict.isEmpty_iff.1 none setting.key
    rw [Dict.get?_insert, if_pos rfl] at absent
    cases absent
  · exact compact entry old

theorem Compact.setAll {store : Store} (compact : store.Compact) (settings : List Setting) :
    (store.setAll settings).Compact := by
  induction settings generalizing store with
  | nil => exact compact
  | cons setting rest ih => exact ih (compact.set setting)

theorem Compact.unset {store : Store} (compact : store.Compact) (sectionName key : String) :
    (store.unset sectionName key).Compact := by
  unfold Store.unset
  split
  · exact compact
  · rename_i options found
    intro entry member
    simp only at member
    split at member
    · exact compact entry (Entries.mem_erase member)
    · rename_i some
      rcases Entries.mem_insert member with rfl | old
      · exact Bool.eq_false_iff.2 some
      · exact compact entry old

/-- Whether there is a section of a name, be it empty. -/
def hasSection (store : Store) (name : String) : Bool :=
  (store.sections.get? name).isSome

/-- Stores that have the same sections and answer alike are equal. -/
theorem eq_of_hasSection_of_get? {a b : Store}
    (sections : ∀ name, a.hasSection name = b.hasSection name)
    (same : ∀ sectionName key, a.get? sectionName key = b.get? sectionName key) : a = b := by
  have equal : a.sections = b.sections := by
    apply Dict.eq_of_get?
    intro name
    have present := sections name
    unfold hasSection at present
    cases foundA : a.sections.get? name with
    | none =>
      rw [foundA] at present
      exact (Option.isNone_iff_eq_none.mp (Option.isSome_eq_false_iff.mp present.symm)).symm
    | some optionsA =>
      rw [foundA] at present
      obtain ⟨optionsB, foundB⟩ := Option.isSome_iff_exists.mp present.symm
      have options : optionsA = optionsB := by
        apply Dict.eq_of_get?
        intro key
        simpa only [Store.get?, foundA, foundB, Option.bind_some] using same name key
      rw [foundB, options]
  cases a
  cases b
  rw [Store.mk.injEq]
  exact equal

theorem hasSection_of_get? {store : Store} {name key : String} (present : store.get? name key ≠ none) :
    store.hasSection name = true := by
  unfold hasSection
  unfold Store.get? at present
  cases found : store.sections.get? name with
  | none =>
    rw [found] at present
    exact absurd rfl present
  | some => rfl

/-- A section of a compact store has an option. -/
theorem Compact.exists_option {store : Store} (compact : store.Compact) {name : String}
    {options : Dict Json} (found : store.sections.get? name = some options) :
    ∃ key value, options.get? key = some value := by
  have inhabited := compact _ (Dict.mem_of_get? found)
  rw [Bool.eq_false_iff, Ne, Dict.isEmpty_iff, Classical.not_forall] at inhabited
  obtain ⟨key, present⟩ := inhabited
  exact ⟨key, Option.ne_none_iff_exists'.mp present⟩

theorem Compact.hasSection_iff {store : Store} (compact : store.Compact) {name : String} :
    store.hasSection name = true ↔ ∃ key, store.get? name key ≠ none := by
  refine ⟨fun here => ?_, fun ⟨_, present⟩ => hasSection_of_get? present⟩
  obtain ⟨options, found⟩ := Option.isSome_iff_exists.mp here
  obtain ⟨key, value, present⟩ := compact.exists_option found
  refine ⟨key, ?_⟩
  rw [Store.get?, found, Option.bind_some, present]
  exact Option.some_ne_none value

/-- Compact stores that answer alike are equal. -/
theorem Compact.eq_of_get? {a b : Store} (compactA : a.Compact) (compactB : b.Compact)
    (same : ∀ sectionName key, a.get? sectionName key = b.get? sectionName key) : a = b := by
  refine eq_of_hasSection_of_get? (fun name => ?_) same
  rw [Bool.eq_iff_iff, compactA.hasSection_iff, compactB.hasSection_iff]
  simp only [same]

end Store
end BatchFetch
