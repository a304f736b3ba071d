import BatchFetch.Store.Basic
import Mathlib.Data.List.Infix

namespace BatchFetch.Store

/-- A front of a section name that is the whole name or that a separator follows. -/
def IsLevel (level name : List Char) : Prop :=
  name = level ∨ ∃ rest, name = level ++ levelSeparator :: rest

/-- What is to be found for an option of a section. -/
inductive Finds (store : Store) (name key : String) : Option Json → Prop
  | global : name = "" ∨ name = globalSection → Finds store name key (store.get? globalSection key)
  | level {level : String} {value : Json} : name ≠ "" → name ≠ globalSection →
      IsLevel level.toList name.toList → store.get? level key = some value →
      (∀ longer : String, IsLevel longer.toList name.toList → level.length < longer.length →
        store.get? longer key = none) → Finds store name key (some value)
  | fallback : name ≠ "" → name ≠ globalSection →
      (∀ level : String, IsLevel level.toList name.toList → store.get? level key = none) →
      Finds store name key (store.get? globalSection key)

theorem IsLevel.front {level name : List Char} (isLevel : IsLevel level name) : level <+: name := by
  rcases isLevel with rfl | ⟨rest, rfl⟩
  · exact List.prefix_rfl
  · exact List.prefix_append _ _

/-- A level of a name is known from its length. -/
theorem IsLevel.eq_of_length {level other name : List Char} (first : IsLevel level name)
    (second : IsLevel other name) (same : level.length = other.length) : level = other :=
  (List.prefix_of_prefix_length_le first.front second.front same.le).eq_of_length same

theorem isLevel_nil_cons {c : Char} {name : List Char} :
    IsLevel [] (c :: name) ↔ c = levelSeparator := by
  simp [IsLevel]

theorem isLevel_cons_cons {c d : Char} {level name : List Char} :
    IsLevel (d :: level) (c :: name) ↔ c = d ∧ IsLevel level name := by
  simp only [IsLevel, List.cons_append, List.cons.injEq, ← exists_and_left, and_or_left]

theorem mem_levelsFrom {seen name : List Char} {level : String} :
    level ∈ levelsFrom seen name ↔
      ∃ part, level.toList = seen.reverse ++ part ∧ IsLevel part name := by
  have here (text : List Char) : level = String.ofList text ↔ level.toList = text := by
    rw [← String.toList_inj, String.toList_ofList]
  induction name generalizing seen with
  | nil =>
    rw [levelsFrom, List.mem_singleton, here]
    simp [IsLevel]
  | cons c name ih =>
    have later : level ∈ levelsFrom (c :: seen) name ↔
        ∃ part, level.toList = seen.reverse ++ c :: part ∧ IsLevel part name := by
      refine (@ih (c :: seen)).trans ?_
      simp only [List.reverse_cons, List.append_assoc, List.singleton_append]
    have cut : (∃ part, level.toList = seen.reverse ++ part ∧ IsLevel part (c :: name)) ↔
        c = levelSeparator ∧ level.toList = seen.reverse ∨
          ∃ part, level.toList = seen.reverse ++ c :: part ∧ IsLevel part name := by
      constructor
      · rintro ⟨part, named, isLevel⟩
        cases part with
        | nil => exact Or.inl ⟨isLevel_nil_cons.mp isLevel, by rw [named, List.append_nil]⟩
        | cons d part =>
          obtain ⟨rfl, below⟩ := isLevel_cons_cons.mp isLevel
          exact Or.inr ⟨part, named, below⟩
      · rintro (⟨separates, named⟩ | ⟨part, named, isLevel⟩)
        · exact ⟨[], by rw [named, List.append_nil], isLevel_nil_cons.mpr separates⟩
        · exact ⟨c :: part, named, isLevel_cons_cons.mpr ⟨rfl, isLevel⟩⟩
    rw [cut, levelsFrom]
    split
    · rename_i separates
      rw [List.mem_cons, here, later, and_iff_right separates]
    · rename_i other
      rw [later, or_iff_right fun both => other both.1]

theorem mem_levels {name level : String} :
    level ∈ levels name ↔ IsLevel level.toList name.toList := by
  rw [levels, mem_levelsFrom]
  simp

-- A separator at the front or behind another one makes a level too.
example : levels ".é..x" = ["", ".é", ".é.", ".é..x"] := by decide

/-- The levels come in the order of their lengths. -/
theorem pairwise_levelsFrom (seen name : List Char) :
    (levelsFrom seen name).Pairwise fun level longer => level.length < longer.length := by
  induction name generalizing seen with
  | nil => exact List.pairwise_singleton _ _
  | cons c name ih =>
    rw [levelsFrom]
    split
    · refine List.pairwise_cons.mpr ⟨fun longer member => ?_, ih _⟩
      obtain ⟨part, named, _⟩ := mem_levelsFrom.mp member
      rw [← String.length_toList, ← String.length_toList, named, String.toList_ofList,
        List.length_append, List.reverse_cons, List.length_append, List.length_singleton]
      omega
    · exact ih _

theorem foldl_or_eq {α : Type} (look : String → Option α) (names : List String)
    (found : Option α) :
    names.foldl (fun found name => (look name).or found) found =
      (names.filterMap look).getLast?.or found := by
  induction names generalizing found with
  | nil => rfl
  | cons name rest ih =>
    rw [List.foldl_cons, ih, ← Option.or_assoc, List.filterMap_cons]
    cases look name with
    | none => rw [Option.or_none]
    | some value =>
      rw [List.getLast?_cons]
      cases (rest.filterMap look).getLast? <;> rfl

/-- The value of an option at the most specific level of a section that has it. -/
def atLevels? (store : Store) (name key : String) : Option Json :=
  ((levels name).filterMap (store.get? · key)).getLast?

theorem interpolate?_of_section (store : Store) {name : String} (notEmpty : name ≠ "")
    (notGlobal : name ≠ globalSection) (key : String) :
    store.interpolate? name key = (store.atLevels? name key).or (store.getGlobal? key) := by
  rw [interpolate?_eq, if_neg (not_or.mpr ⟨notEmpty, notGlobal⟩), foldl_or_eq (store.get? · key),
    atLevels?]

theorem finds_interpolate? (store : Store) (name key : String) :
    store.Finds name key (store.interpolate? name key) := by
  by_cases global : name = "" ∨ name = globalSection
  · rw [interpolate?_eq, if_pos global]
    exact .global global
  · obtain ⟨notEmpty, notGlobal⟩ := not_or.mp global
    rw [interpolate?_of_section store notEmpty notGlobal, getGlobal?, atLevels?,
      List.getLast?_filterMap]
    cases found : (levels name).reverse.findSome? (store.get? · key) with
    | none =>
      refine .fallback notEmpty notGlobal fun level isLevel => ?_
      exact List.findSome?_eq_none_iff.mp found level (List.mem_reverse.mpr (mem_levels.mpr isLevel))
    | some value =>
      obtain ⟨longer, level, shorter, order, has, lacks⟩ := List.findSome?_eq_some_iff.mp found
      have member (other : String) :
          IsLevel other.toList name.toList ↔ other ∈ longer ∨ other = level ∨ other ∈ shorter := by
        rw [← mem_levels, ← List.mem_reverse, order, List.mem_append, List.mem_cons]
      have sorted := List.pairwise_reverse.mpr (pairwise_levelsFrom [] name.toList)
      rw [← levels, order, List.pairwise_append, List.pairwise_cons] at sorted
      refine .level notEmpty notGlobal ((member level).mpr (Or.inr (Or.inl rfl))) has ?_
      intro other isLevel above
      rcases (member other).mp isLevel with among | rfl | among
      · exact lacks other among
      · exact absurd above (Nat.lt_irrefl _)
      · exact absurd above (Nat.lt_asymm (sorted.2.1.1 other among))

/-- A section and an option leave no choice. -/
theorem Finds.unique {store : Store} {name key : String} {first second : Option Json}
    (finds : store.Finds name key first) (findsToo : store.Finds name key second) :
    first = second := by
  cases finds with
  | global global =>
    cases findsToo with
    | global => rfl
    | level notEmpty notGlobal => exact absurd global (not_or.mpr ⟨notEmpty, notGlobal⟩)
    | fallback => rfl
  | @level level value notEmpty notGlobal isLevel has longest =>
    cases findsToo with
    | global global => exact absurd global (not_or.mpr ⟨notEmpty, notGlobal⟩)
    | @level other valueToo _ _ isLevelToo hasToo longestToo =>
      rcases Nat.lt_trichotomy level.length other.length with below | same | above
      · exact absurd ((longest other isLevelToo below).symm.trans hasToo) nofun
      · rw [← String.length_toList, ← String.length_toList] at same
        rw [String.toList_injective (isLevel.eq_of_length isLevelToo same)] at has
        exact has.symm.trans hasToo
      · exact absurd ((longestToo level isLevel above).symm.trans has) nofun
    | fallback _ _ lacks => exact absurd ((lacks level isLevel).symm.trans has) nofun
  | fallback notEmpty notGlobal lacks =>
    cases findsToo with
    | global => rfl
    | @level level value _ _ isLevel has => exact absurd ((lacks level isLevel).symm.trans has) nofun
    | fallback => rfl

/-- Looking an option up never cuts the name of a section behind its end or inside a character. For
the global section the answer is the global value, and for any other name the value at the longest
level that has the option, or else the global value. -/
theorem interpolate?_longest_level (store : Store) (name key : String) :
    (store.walkLevels? name key).isSome ∧
      ∀ answer, store.interpolate? name key = answer ↔ store.Finds name key answer := by
  refine ⟨by rw [walkLevels?_eq]; rfl, fun answer => ⟨?_, fun finds => ?_⟩⟩
  · rintro rfl
    exact store.finds_interpolate? name key
  · exact (store.finds_interpolate? name key).unique finds

end BatchFetch.Store
