import BatchFetch.Proofs.Text.Pieces
import Mathlib.Data.List.Infix
import Mathlib.Data.List.Nodup

namespace BatchFetch.Text

theorem dropWord?_append (word rest : List Char) : dropWord? word (word ++ rest) = some rest := by
  induction word with
  | nil => rfl
  | cons c word ih => rw [List.cons_append, dropWord?, if_pos rfl, ih]

theorem dropWord?_eq_none {word text : List Char} (absent : ¬ word <+: text) :
    dropWord? word text = none := by
  rw [Option.eq_none_iff_forall_ne_some]
  intro rest found
  exact absent (eq_append_of_dropWord? found ▸ List.prefix_append _ _)

theorem replaceAll_word {word : List Char} (some : word ≠ []) (value rest : List Char) :
    replaceAll word value (word ++ rest) = value ++ replaceAll word value rest := by
  cases whole : word ++ rest with
  | nil => exact absurd (List.append_eq_nil_iff.mp whole).1 some
  | cons c text =>
    have found := dropWord?_append word rest
    rw [whole] at found
    rw [replaceAll]
    split
    · rename_i none
      rw [found] at none
      cases none
    · rename_i after here
      rw [found] at here
      cases here
      rw [dif_neg some]

theorem replaceAll_cons {word : List Char} (value : List Char) {c : Char} {rest : List Char}
    (absent : ¬ word <+: c :: rest) :
    replaceAll word value (c :: rest) = c :: replaceAll word value rest := by
  rw [replaceAll]
  split
  · rfl
  · rename_i after here
    rw [dropWord?_eq_none absent] at here
    cases here

theorem prefix_of_append_sep {sep : Char} {word before after : List Char} (absent : sep ∉ word)
    (starts : word <+: before ++ sep :: after) : word <+: before := by
  rcases List.prefix_or_prefix_of_prefix starts (List.prefix_append before _) with inside | ⟨more, longer⟩
  · exact inside
  · cases more with
    | nil => rw [← longer, List.append_nil]
    | cons c more =>
      rw [← longer, List.prefix_append_right_inj, List.cons_prefix_cons] at starts
      rw [← longer, starts.1] at absent
      exact absurd (List.mem_append_right _ List.mem_cons_self) absent

/-- A word that does not have the separator is replaced in front of it and behind it. -/
theorem replaceAll_append_sep {sep : Char} {word : List Char} (absent : sep ∉ word) (some : word ≠ [])
    (value before after : List Char) :
    replaceAll word value (before ++ sep :: after) =
      replaceAll word value before ++ sep :: replaceAll word value after := by
  induction size : before.length using Nat.strongRecOn generalizing before with
  | _ n ih =>
    by_cases starts : word <+: before
    · obtain ⟨rest, rfl⟩ := starts
      have shorter : rest.length < n := by
        have positive := List.length_pos_iff.mpr some
        rw [← size, List.length_append]
        omega
      rw [List.append_assoc, replaceAll_word some, replaceAll_word some, ih _ shorter rest rfl,
        List.append_assoc]
    · have absentHere : ¬ word <+: before ++ sep :: after := mt (prefix_of_append_sep absent) starts
      cases before with
      | nil =>
        rw [List.nil_append] at absentHere
        rw [List.nil_append, replaceAll_cons _ absentHere, replaceAll, List.nil_append]
      | cons c before =>
        rw [List.cons_append] at absentHere
        rw [List.cons_append, replaceAll_cons _ absentHere, replaceAll_cons _ starts,
          ih before.length (by rw [← size, List.length_cons]; omega) before rfl, List.cons_append]

theorem mem_replaceAll {word value text : List Char} {c : Char} (member : c ∈ replaceAll word value text) :
    c ∈ value ∨ c ∈ text := by
  fun_induction replaceAll word value text with
  | case1 => cases member
  | case2 d rest _ ih | case3 d rest _ _ _ ih =>
    rcases List.mem_cons.mp member with rfl | later
    · exact Or.inr List.mem_cons_self
    · exact (ih later).imp_right (List.mem_cons_of_mem _)
  | case4 d rest after found _ ih =>
    rcases List.mem_append.mp member with inValue | later
    · exact Or.inl inValue
    · rw [eq_append_of_dropWord? found]
      exact (ih later).imp_right (List.mem_append_right _)

/-- Each piece of a text is gone over by itself. -/
theorem pieces_replaceAll {sep : Char} {word value : List Char} (absent : sep ∉ word)
    (some : word ≠ []) (absentToo : sep ∉ value) (text : List Char) :
    pieces sep (replaceAll word value text) = (pieces sep text).map (replaceAll word value) := by
  induction size : text.length using Nat.strongRecOn generalizing text with
  | _ n ih =>
    cases cut : cutFirst sep text with
    | none =>
      have free := cutFirst_eq_none_iff.mp cut
      have freeToo : sep ∉ replaceAll word value text := fun member =>
        (mem_replaceAll member).elim absentToo free
      rw [pieces_of_not_mem free, pieces_of_not_mem freeToo, List.map_singleton]
    | some parts =>
      obtain ⟨before, after⟩ := parts
      obtain ⟨rfl, free⟩ := cutFirst_eq_some_iff.mp cut
      have shorter : after.length < n := by
        rw [← size, List.length_append, List.length_cons]
        omega
      have freeToo : sep ∉ replaceAll word value before := fun member =>
        (mem_replaceAll member).elim absentToo free
      rw [replaceAll_append_sep absent some, pieces_append, pieces_append, pieces_of_not_mem free,
        pieces_of_not_mem freeToo, ih _ shorter after rfl, List.map_append, List.map_singleton]

/-- The placeholder of a name. -/
def braced (name : List Char) : List Char :=
  '\x7b' :: (name ++ ['\x7d'])

/-- A text in which no placeholder starts or ends. -/
def NoBraces (text : List Char) : Prop :=
  '\x7b' ∉ text ∧ '\x7d' ∉ text

instance (text : List Char) : Decidable (NoBraces text) :=
  inferInstanceAs (Decidable (_ ∧ _))

theorem NoBraces.of_append {text rest : List Char} (plain : NoBraces (text ++ rest)) :
    NoBraces text ∧ NoBraces rest := by
  simp only [NoBraces, List.mem_append, not_or] at plain ⊢
  exact ⟨⟨plain.1.1, plain.2.1⟩, plain.1.2, plain.2.2⟩

/-- Fill in a template in one pass, from left to right: each placeholder gives way to the value of its
name, and the pass goes on behind it. -/
def fillIn (values : List (List Char × List Char)) : List Char → List Char
  | [] => []
  | c :: rest =>
    match values.find? fun entry => (braced entry.1).isPrefixOf (c :: rest) with
    | some (name, value) => value ++ fillIn values (rest.drop (name.length + 1))
    | none => c :: fillIn values rest
  termination_by text => text.length
  decreasing_by
    · simp only [List.length_drop, List.length_cons]; omega
    · simp

/-- Each name has one value, and there are no braces in the names. -/
structure AreValues (values : List (List Char × List Char)) : Prop where
  distinct : (values.map Prod.fst).Nodup
  plain : ∀ entry ∈ values, NoBraces entry.1

theorem areValues_of_names {values : List (List Char × List Char)} {names : List String}
    (same : values.map Prod.fst = names.map String.toList) (distinct : (names.map String.toList).Nodup)
    (plain : ∀ name ∈ names, NoBraces name.toList) : AreValues values where
  distinct := same ▸ distinct
  plain := by
    intro entry member
    have among : entry.1 ∈ names.map String.toList := same ▸ List.mem_map_of_mem member
    obtain ⟨name, listed, whole⟩ := List.mem_map.mp among
    exact whole ▸ plain name listed

theorem areValues_singleton {name : List Char} (plain : NoBraces name) (value : List Char) :
    AreValues [(name, value)] where
  distinct := List.nodup_singleton name
  plain := fun _ member => List.mem_singleton.mp member ▸ plain

theorem AreValues.of_append {values more : List (List Char × List Char)}
    (areValues : AreValues (values ++ more)) : AreValues values where
  distinct := by
    have distinct := areValues.distinct
    rw [List.map_append] at distinct
    exact distinct.of_append_left
  plain entry member := areValues.plain entry (List.mem_append_left _ member)

theorem braced_append (name rest : List Char) :
    braced name ++ rest = '\x7b' :: (name ++ '\x7d' :: rest) := by
  rw [braced, List.cons_append, List.append_assoc, List.singleton_append]

theorem braced_inj {name other first second : List Char} (plain : NoBraces name)
    (plainToo : NoBraces other) (equal : braced name ++ first = braced other ++ second) :
    name = other ∧ first = second := by
  rw [braced_append, braced_append] at equal
  exact append_sep_inj plain.2 plainToo.2 (List.cons.inj equal).2

section Filling

variable {values : List (List Char × List Char)}

theorem AreValues.find? (areValues : AreValues values) {name value : List Char}
    (member : (name, value) ∈ values) (rest : List Char) :
    (values.find? fun entry => (braced entry.1).isPrefixOf (braced name ++ rest)) =
      some (name, value) := by
  have here : (braced name).isPrefixOf (braced name ++ rest) = true :=
    List.isPrefixOf_iff_prefix.mpr (List.prefix_append _ _)
  cases found : values.find? fun entry => (braced entry.1).isPrefixOf (braced name ++ rest) with
  | none => exact absurd here (List.find?_eq_none.mp found _ member)
  | some entry =>
    have among := List.mem_of_find?_eq_some found
    have starts := List.find?_some found
    obtain ⟨after, whole⟩ := List.isPrefixOf_iff_prefix.mp starts
    have same := (braced_inj (areValues.plain _ among) (areValues.plain _ member) whole).1
    rw [List.inj_on_of_nodup_map areValues.distinct among member same]

/-- A placeholder gives way to its value. -/
theorem AreValues.fillIn_braced (areValues : AreValues values) {name value : List Char}
    (member : (name, value) ∈ values) (rest : List Char) :
    fillIn values (braced name ++ rest) = value ++ fillIn values rest := by
  have found := areValues.find? member rest
  rw [braced_append] at found ⊢
  rw [fillIn, found]
  simp

/-- A character at which no placeholder starts stays. -/
theorem fillIn_cons {c : Char} {rest : List Char}
    (none : ∀ entry ∈ values, ¬ braced entry.1 <+: c :: rest) :
    fillIn values (c :: rest) = c :: fillIn values rest := by
  have absent : (values.find? fun entry => (braced entry.1).isPrefixOf (c :: rest)) = .none :=
    List.find?_eq_none.mpr fun entry member =>
      mt List.isPrefixOf_iff_prefix.mp (none entry member)
  rw [fillIn, absent]

theorem fillIn_cons_of_ne {c : Char} (other : c ≠ '\x7b') (rest : List Char) :
    fillIn values (c :: rest) = c :: fillIn values rest :=
  fillIn_cons fun _ _ inside => other (List.cons_prefix_cons.mp inside).1.symm

theorem fillIn_append_of_plain {text : List Char} (plain : '\x7b' ∉ text) (rest : List Char) :
    fillIn values (text ++ rest) = text ++ fillIn values rest := by
  induction text with
  | nil => rfl
  | cons c text ih =>
    obtain ⟨other, plainLater⟩ := List.ne_and_not_mem_of_not_mem_cons plain
    rw [List.cons_append, fillIn_cons_of_ne other.symm, ih plainLater, List.cons_append]

theorem fillIn_nil : fillIn values [] = [] := by rw [fillIn]

theorem fillIn_of_plain {text : List Char} (plain : '\x7b' ∉ text) : fillIn values text = text := by
  have whole : fillIn values (text ++ []) = text ++ fillIn values [] := fillIn_append_of_plain plain []
  rwa [fillIn_nil, List.append_nil] at whole

/-- Templates are read from their front: there is a placeholder, or a character that stays. -/
@[elab_as_elim]
theorem template_induction (values : List (List Char × List Char)) {motive : List Char → Prop}
    (nil : motive [])
    (entry : ∀ name value rest, (name, value) ∈ values → motive rest → motive (braced name ++ rest))
    (other : ∀ c rest, (∀ entry ∈ values, ¬ braced entry.1 <+: c :: rest) → motive rest →
      motive (c :: rest)) (text : List Char) : motive text := by
  induction size : text.length using Nat.strongRecOn generalizing text with
  | _ n ih =>
    cases text with
    | nil => exact nil
    | cons c rest =>
      by_cases starts : ∃ entry ∈ values, braced entry.1 <+: c :: rest
      · obtain ⟨⟨name, value⟩, member, after, whole⟩ := starts
        have shorter : after.length < n := by
          rw [← size, ← whole, braced_append, List.length_cons, List.length_append, List.length_cons]
          omega
        exact whole ▸ entry name value after member (ih _ shorter after rfl)
      · refine other c rest (by simpa using starts) (ih rest.length ?_ rest rfl)
        rw [← size, List.length_cons]
        omega

/-- What is filled in without leaving an opening brace is filled in by itself. -/
theorem AreValues.fillIn_append_of_filled (areValues : AreValues values) {text : List Char}
    (filled : '\x7b' ∉ fillIn values text) (rest : List Char) :
    fillIn values (text ++ rest) = fillIn values text ++ fillIn values rest := by
  induction text using template_induction values with
  | nil => rw [fillIn_nil]; rfl
  | entry name value text member ih =>
    rw [areValues.fillIn_braced member] at filled
    rw [List.append_assoc, areValues.fillIn_braced member, areValues.fillIn_braced member,
      ih fun inside => filled (List.mem_append_right _ inside), List.append_assoc]
  | other c text none ih =>
    rw [fillIn_cons none] at filled
    obtain ⟨differs, filledLater⟩ := List.ne_and_not_mem_of_not_mem_cons filled
    rw [List.cons_append, fillIn_cons_of_ne differs.symm, fillIn_cons none, ih filledLater,
      List.cons_append]

/-- No placeholder reaches over an opening brace. -/
theorem braced_prefix_of_append {name text after : List Char} (plain : NoBraces name)
    (some : text ≠ []) (starts : braced name <+: text ++ '\x7b' :: after) : braced name <+: text := by
  rcases List.prefix_or_prefix_of_prefix starts (List.prefix_append text _) with inside | ⟨more, longer⟩
  · exact inside
  · cases more with
    | nil => rw [← longer, List.append_nil]
    | cons d more =>
      rw [← longer, List.prefix_append_right_inj, List.cons_prefix_cons] at starts
      cases text with
      | nil => exact absurd rfl some
      | cons c text =>
        have inside : '\x7b' ∈ name ++ ['\x7d'] := by
          rw [← (List.cons.inj longer).2, starts.1]
          exact List.mem_append_right _ List.mem_cons_self
        rcases List.mem_append.mp inside with inName | last
        · exact absurd inName plain.1
        · exact absurd (List.mem_singleton.mp last) (by decide)

theorem AreValues.fillIn_append_brace (areValues : AreValues values) (before after : List Char) :
    fillIn values (before ++ '\x7b' :: after) =
      fillIn values before ++ fillIn values ('\x7b' :: after) := by
  induction before using template_induction values with
  | nil => rw [fillIn_nil]; rfl
  | entry name value before member ih =>
    rw [List.append_assoc, areValues.fillIn_braced member, areValues.fillIn_braced member, ih,
      List.append_assoc]
  | other c before none ih =>
    have noneToo : ∀ entry ∈ values, ¬ braced entry.1 <+: c :: (before ++ '\x7b' :: after) :=
      fun entry member starts => none entry member
        (braced_prefix_of_append (areValues.plain entry member) (List.cons_ne_nil _ _) starts)
    rw [List.cons_append, fillIn_cons noneToo, fillIn_cons none, ih, List.cons_append]

/-- Every placeholder is filled in, wherever it stands. -/
theorem AreValues.fillIn_around (areValues : AreValues values) {name value : List Char}
    (member : (name, value) ∈ values) (before after : List Char) :
    fillIn values (before ++ braced name ++ after) =
      fillIn values before ++ value ++ fillIn values after := by
  have cut := areValues.fillIn_append_brace before (name ++ '\x7d' :: after)
  rw [← braced_append, areValues.fillIn_braced member] at cut
  rw [List.append_assoc, cut, List.append_assoc]

/-- A text without placeholders stays as it is. -/
theorem fillIn_eq_self {text : List Char} (free : ∀ entry ∈ values, ¬ braced entry.1 <:+: text) :
    fillIn values text = text := by
  induction text with
  | nil => exact fillIn_nil
  | cons c rest ih =>
    rw [fillIn_cons fun entry member starts => free entry member starts.isInfix,
      ih fun entry member inside => free entry member (inside.trans (List.suffix_cons c rest).isInfix)]

end Filling

end BatchFetch.Text
