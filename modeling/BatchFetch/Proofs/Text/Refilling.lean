import BatchFetch.Proofs.Text.Filling

namespace BatchFetch.Text

variable {values : List (List Char × List Char)} {name value : List Char}

/-- The placeholder of a name is filled in after those of other names. -/
structure ComesAfter (values : List (List Char × List Char)) (name : List Char) : Prop
    extends AreValues values where
  bare : ∀ entry ∈ values, NoBraces entry.2
  plainName : NoBraces name
  new : name ∉ values.map Prod.fst

/-- Some text in braces is not the name of a placeholder, but becomes it when it is filled in. -/
def Completes (values : List (List Char × List Char)) (name text : List Char) : Prop :=
  ∃ inner, braced inner <:+: text ∧ inner ≠ name ∧ fillIn values inner = name

/-- How a template is read that is filled in and then gone over once more for another name. -/
inductive Refilled (values : List (List Char × List Char)) (name : List Char) : List Char → Prop
  | nil : Refilled values name []
  | entry {key word rest : List Char} : (key, word) ∈ values → Refilled values name rest →
      Refilled values name (braced key ++ rest)
  | own {rest : List Char} : Refilled values name rest → Refilled values name (braced name ++ rest)
  | completed {inner rest : List Char} : inner ≠ name → fillIn values inner = name →
      (∀ entry ∈ values, ¬ braced entry.1 <+: braced inner ++ rest) → Refilled values name rest →
      Refilled values name (braced inner ++ rest)
  | other {c : Char} {rest : List Char} : (∀ entry ∈ values, ¬ braced entry.1 <+: c :: rest) →
      ¬ braced name <+: c :: fillIn values rest → Refilled values name rest →
      Refilled values name (c :: rest)

theorem AreValues.comesAfter (areValues : AreValues (values ++ [(name, value)]))
    (bare : ∀ entry ∈ values, NoBraces entry.2) : ComesAfter values name where
  toAreValues := areValues.of_append
  bare := bare
  plainName := areValues.plain _ (List.mem_append_right _ (List.mem_singleton_self (name, value)))
  new := by
    have distinct := areValues.distinct
    rw [List.map_append, List.nodup_append] at distinct
    exact fun member => distinct.2.2 name member name (List.mem_singleton_self name) rfl

theorem ComesAfter.concat (comes : ComesAfter values name) (value : List Char) :
    AreValues (values ++ [(name, value)]) where
  distinct := by
    rw [List.map_append]
    refine List.nodup_append.mpr ⟨comes.distinct, List.nodup_singleton _, ?_⟩
    rintro key member other last rfl
    have same : key = name := List.mem_singleton.mp last
    exact comes.new (same ▸ member)
  plain := by
    intro entry member
    rcases List.mem_append.mp member with inside | last
    · exact comes.plain entry inside
    · exact List.mem_singleton.mp last ▸ comes.plainName

/-- A closing brace comes behind a value that has none. -/
theorem exists_behind {word filled rest : List Char} (plain : '\x7d' ∉ word)
    (starts : filled ++ ['\x7d'] <+: word ++ rest) :
    ∃ front, filled = word ++ front ∧ front ++ ['\x7d'] <+: rest := by
  have last : '\x7d' ∈ filled ++ ['\x7d'] := List.mem_append_right _ List.mem_cons_self
  rcases List.prefix_or_prefix_of_prefix starts (List.prefix_append word rest) with inside | ⟨more, longer⟩
  · exact absurd (inside.subset last) plain
  · rcases List.eq_nil_or_concat more with rfl | ⟨front, c, rfl⟩
    · rw [← longer, List.append_nil] at last
      exact absurd last plain
    · rw [List.concat_eq_append, ← List.append_assoc] at longer
      obtain ⟨rfl, _⟩ := List.append_inj' longer rfl
      rw [List.append_assoc, List.prefix_append_right_inj] at starts
      exact ⟨front, rfl, starts⟩

/-- A closing brace behind a filled in text without braces stood behind what was filled in. -/
theorem ComesAfter.exists_inner (comes : ComesAfter values name) {text filled : List Char}
    (plain : NoBraces filled) (starts : filled ++ ['\x7d'] <+: fillIn values text) :
    ∃ inner after, text = inner ++ '\x7d' :: after ∧ fillIn values inner = filled := by
  induction text using template_induction values generalizing filled with
  | nil =>
    rw [fillIn_nil, List.prefix_nil] at starts
    exact absurd starts (by simp)
  | entry key word rest member ih =>
    rw [comes.fillIn_braced member] at starts
    obtain ⟨front, rfl, startsLater⟩ := exists_behind (comes.bare _ member).2 starts
    obtain ⟨inner, after, rfl, whole⟩ := ih plain.of_append.2 startsLater
    refine ⟨braced key ++ inner, after, (List.append_assoc _ _ _).symm, ?_⟩
    rw [comes.fillIn_braced member, whole]
  | other c rest none ih =>
    rw [fillIn_cons none] at starts
    cases filled with
    | nil =>
      obtain ⟨rfl, _⟩ := List.cons_prefix_cons.mp starts
      exact ⟨[], rest, rfl, fillIn_nil⟩
    | cons d filled =>
      obtain ⟨rfl, startsLater⟩ := List.cons_prefix_cons.mp starts
      obtain ⟨differs, _⟩ := List.ne_and_not_mem_of_not_mem_cons plain.1
      have split : NoBraces ([d] ++ filled) := plain
      obtain ⟨inner, after, rfl, whole⟩ := ih split.of_append.2 startsLater
      exact ⟨d :: inner, after, rfl, by rw [fillIn_cons_of_ne differs.symm, whole]⟩

/-- Each template is read in one of these ways. -/
theorem ComesAfter.refilled (comes : ComesAfter values name) (text : List Char) :
    Refilled values name text := by
  induction size : text.length using Nat.strongRecOn generalizing text with
  | _ n ih =>
    have shorter (key rest : List Char) (whole : braced key ++ rest = text) : rest.length < n := by
      rw [← size, ← whole, braced_append, List.length_cons, List.length_append, List.length_cons]
      omega
    cases text with
    | nil => exact .nil
    | cons c rest =>
      by_cases starts : ∃ entry ∈ values, braced entry.1 <+: c :: rest
      · obtain ⟨⟨key, word⟩, member, after, whole⟩ := starts
        exact whole ▸ .entry member (ih _ (shorter key after whole) after rfl)
      · have none : ∀ entry ∈ values, ¬ braced entry.1 <+: c :: rest := by simpa using starts
        by_cases again : braced name <+: c :: fillIn values rest
        · obtain ⟨rfl, startsLater⟩ := List.cons_prefix_cons.mp again
          obtain ⟨inner, after, rfl, filled⟩ := comes.exists_inner comes.plainName startsLater
          rw [← braced_append] at none shorter ⊢
          have left := ih _ (shorter inner after rfl) after rfl
          by_cases same : inner = name
          · rw [same]
            exact .own left
          · exact .completed same filled none left
        · refine .other none again (ih rest.length ?_ rest rfl)
          rw [← size, List.length_cons]
          omega

/-- A text in braces that becomes a name is filled in to its placeholder. -/
theorem AreValues.fillIn_completed (areValues : AreValues values) (plain : NoBraces name)
    {inner rest : List Char} (filled : fillIn values inner = name)
    (none : ∀ entry ∈ values, ¬ braced entry.1 <+: braced inner ++ rest) :
    fillIn values (braced inner ++ rest) = braced name ++ fillIn values rest := by
  have noOpen : '\x7b' ∉ fillIn values inner := filled ▸ plain.1
  rw [braced_append] at none ⊢
  rw [fillIn_cons none, areValues.fillIn_append_of_filled noOpen, filled,
    fillIn_cons_of_ne (by decide), braced_append]

/-- Two texts in braces at one place are the same, if one has no braces and the other none that are
left when it is filled in. -/
theorem eq_of_braced_starts {inner key rest : List Char} (plain : NoBraces key)
    (filled : '\x7d' ∉ fillIn values inner) (starts : braced inner <+: braced key ++ rest) :
    inner = key := by
  obtain ⟨after, whole⟩ := starts
  rw [braced_append, braced_append] at whole
  rcases List.append_eq_append_iff.mp (List.cons.inj whole).2 with
    ⟨more, longer, close⟩ | ⟨more, longer, close⟩
  · cases more with
    | nil => rw [longer, List.append_nil]
    | cons d more =>
      rw [longer, ← (List.cons.inj close).1] at plain
      exact absurd (List.mem_append_right _ List.mem_cons_self) plain.2
  · cases more with
    | nil => rw [longer, List.append_nil]
    | cons d more =>
      rw [longer, ← (List.cons.inj close).1, fillIn_append_of_plain plain.1,
        fillIn_cons_of_ne (by decide)] at filled
      exact absurd (List.mem_append_right _ List.mem_cons_self) filled

theorem braced_infix_of_append {inner text rest : List Char} (plain : '\x7b' ∉ text)
    (inside : braced inner <:+: text ++ rest) : braced inner <:+: rest := by
  induction text with
  | nil => exact inside
  | cons c text ih =>
    obtain ⟨other, plainLater⟩ := List.ne_and_not_mem_of_not_mem_cons plain
    rcases List.infix_cons_iff.mp inside with starts | later
    · exact absurd (List.cons_prefix_cons.mp starts).1 other
    · exact ih plainLater later

theorem not_completes_nil : ¬ Completes values name [] := by
  rintro ⟨inner, inside, _⟩
  exact List.cons_ne_nil _ _ (List.infix_nil.mp inside)

theorem ComesAfter.completes_braced_iff (comes : ComesAfter values name) {key rest : List Char}
    (plain : NoBraces key) :
    Completes values name (braced key ++ rest) ↔ Completes values name rest := by
  constructor
  · rintro ⟨inner, inside, differs, filled⟩
    refine ⟨inner, ?_, differs, filled⟩
    rw [braced_append] at inside
    rcases List.infix_cons_iff.mp inside with starts | later
    · rw [← braced_append] at starts
      have same := eq_of_braced_starts plain (filled ▸ comes.plainName.2) starts
      rw [same, fillIn_of_plain plain.1] at filled
      exact absurd (same.trans filled) differs
    · have noOpen : '\x7b' ∉ key ++ ['\x7d'] := by
        rw [List.mem_append, not_or]
        exact ⟨plain.1, by decide⟩
      refine braced_infix_of_append noOpen ?_
      rw [List.append_assoc, List.singleton_append]
      exact later
  · rintro ⟨inner, inside, differs, filled⟩
    exact ⟨inner, inside.trans (List.suffix_append _ _).isInfix, differs, filled⟩

theorem ComesAfter.completes_cons_iff (comes : ComesAfter values name) {c : Char} {rest : List Char}
    (none : ∀ entry ∈ values, ¬ braced entry.1 <+: c :: rest)
    (absent : ¬ braced name <+: c :: fillIn values rest) :
    Completes values name (c :: rest) ↔ Completes values name rest := by
  constructor
  · rintro ⟨inner, inside, differs, filled⟩
    refine ⟨inner, ?_, differs, filled⟩
    rcases List.infix_cons_iff.mp inside with ⟨after, whole⟩ | later
    · rw [← fillIn_cons none, ← whole, comes.fillIn_completed comes.plainName filled
        (whole ▸ none)] at absent
      exact absurd (List.prefix_append _ _) absent
    · exact later
  · rintro ⟨inner, inside, differs, filled⟩
    exact ⟨inner, inside.trans (List.suffix_cons c rest).isInfix, differs, filled⟩

/-- One more name makes no difference to a text whose braces are all filled in. -/
theorem ComesAfter.fillIn_concat (comes : ComesAfter values name) (value : List Char)
    {text : List Char} (filled : '\x7b' ∉ fillIn values text) :
    fillIn (values ++ [(name, value)]) text = fillIn values text := by
  induction text using template_induction values with
  | nil => rw [fillIn_nil, fillIn_nil]
  | entry key word rest member ih =>
    rw [comes.fillIn_braced member] at filled ⊢
    rw [(comes.concat value).fillIn_braced (List.mem_append_left _ member),
      ih fun inside => filled (List.mem_append_right _ inside)]
  | other c rest none ih =>
    rw [fillIn_cons none] at filled ⊢
    obtain ⟨differs, filledLater⟩ := List.ne_and_not_mem_of_not_mem_cons filled
    rw [fillIn_cons_of_ne differs.symm, ih filledLater]

theorem replaceAll_append_of_plain {text : List Char} (plain : '\x7b' ∉ text) (value rest : List Char) :
    replaceAll (braced name) value (text ++ rest) = text ++ replaceAll (braced name) value rest := by
  induction text with
  | nil => rfl
  | cons c text ih =>
    obtain ⟨other, plainLater⟩ := List.ne_and_not_mem_of_not_mem_cons plain
    have absent : ¬ braced name <+: c :: (text ++ rest) := fun starts =>
      other (List.cons_prefix_cons.mp starts).1
    rw [List.cons_append, replaceAll_cons _ absent, ih plainLater, List.cons_append]

theorem replaceAll_braced (name value rest : List Char) :
    replaceAll (braced name) value (braced name ++ rest) =
      value ++ replaceAll (braced name) value rest :=
  replaceAll_word (List.cons_ne_nil _ _) value rest

/-- The placeholder of a new name stays. -/
theorem ComesAfter.fillIn_own (comes : ComesAfter values name) (rest : List Char) :
    fillIn values (braced name ++ rest) = braced name ++ fillIn values rest := by
  refine comes.fillIn_completed comes.plainName (fillIn_of_plain comes.plainName.1) ?_
  rintro entry member ⟨after, whole⟩
  have same := (braced_inj (comes.plain entry member) comes.plainName whole).1
  exact comes.new (same ▸ List.mem_map_of_mem member)

theorem not_starts_concat {text : List Char} (none : ∀ entry ∈ values, ¬ braced entry.1 <+: text)
    (own : ¬ braced name <+: text) :
    ∀ entry ∈ values ++ [(name, value)], ¬ braced entry.1 <+: text := by
  intro entry member
  rcases List.mem_append.mp member with inside | last
  · exact none entry inside
  · exact List.mem_singleton.mp last ▸ own

theorem ComesAfter.own_not_starts_completed (comes : ComesAfter values name) {inner rest : List Char}
    (differs : inner ≠ name) (filled : fillIn values inner = name) :
    ¬ braced name <+: braced inner ++ rest := by
  rintro ⟨after, whole⟩
  exact differs (eq_of_braced_starts comes.plainName (filled ▸ comes.plainName.2) ⟨rest, whole.symm⟩)

theorem ComesAfter.own_not_starts_other (comes : ComesAfter values name) {c : Char} {rest : List Char}
    (none : ∀ entry ∈ values, ¬ braced entry.1 <+: c :: rest)
    (absent : ¬ braced name <+: c :: fillIn values rest) : ¬ braced name <+: c :: rest := by
  rintro ⟨after, whole⟩
  rw [← fillIn_cons none, ← whole, comes.fillIn_own] at absent
  exact absent (List.prefix_append _ _)

/-- What going over a text again makes beside what a single pass makes: both are the same, or a value
has completed something, and then the first has fewer opening braces if none is put in. -/
def Compares (completes : Prop) (value again single : List Char) : Prop :=
  ¬ completes ∧ again = single ∨
    completes ∧ ('\x7b' ∉ value → again.count '\x7b' < single.count '\x7b')

theorem Compares.behind {here later : Prop} {again single : List Char} (same : here ↔ later)
    (compares : Compares later value again single) (front : List Char) :
    Compares here value (front ++ again) (front ++ single) := by
  rw [Compares, same, List.append_cancel_left_eq, List.count_append, List.count_append]
  exact compares.imp_right (And.imp_right fun fewer plain => Nat.add_lt_add_left (fewer plain) _)

theorem Compares.count_le {completes : Prop} {again single : List Char}
    (compares : Compares completes value again single) (plain : '\x7b' ∉ value) :
    again.count '\x7b' ≤ single.count '\x7b' :=
  compares.elim (fun both => both.2 ▸ Nat.le_refl _) fun both => (both.2 plain).le

/-- Going over a filled in template for one more name fills in that name as a single pass does, as far
as no value has completed its placeholder. -/
theorem ComesAfter.compares (comes : ComesAfter values name) (value text : List Char) :
    Compares (Completes values name text) value (replaceAll (braced name) value (fillIn values text))
      (fillIn (values ++ [(name, value)]) text) := by
  have concat := comes.concat value
  have own : (name, value) ∈ values ++ [(name, value)] :=
    List.mem_append_right _ (List.mem_singleton_self _)
  -- however the template is read on, both passes go on alike, but for a completed placeholder
  induction comes.refilled text with
  | nil =>
    rw [fillIn_nil, fillIn_nil, replaceAll]
    exact Or.inl ⟨not_completes_nil, rfl⟩
  | entry member _ ih =>
    rw [comes.fillIn_braced member, concat.fillIn_braced (List.mem_append_left _ member),
      replaceAll_append_of_plain (comes.bare _ member).1]
    exact ih.behind (comes.completes_braced_iff (comes.plain _ member)) _
  | own _ ih =>
    rw [comes.fillIn_own, concat.fillIn_braced own, replaceAll_braced]
    exact ih.behind (comes.completes_braced_iff comes.plainName) _
  | @completed inner rest differs filled none _ ih =>
    have filledToo : fillIn (values ++ [(name, value)]) inner = name :=
      (comes.fillIn_concat value (filled ▸ comes.plainName.1)).trans filled
    have own : ¬ braced name <+: braced inner ++ rest :=
      comes.own_not_starts_completed differs filled
    rw [comes.fillIn_completed comes.plainName filled none, concat.fillIn_completed comes.plainName
      filledToo (not_starts_concat none own), replaceAll_braced]
    refine Or.inr ⟨⟨inner, (List.prefix_append _ _).isInfix, differs, filled⟩, fun plain => ?_⟩
    -- the value has come in place of a placeholder that the single pass has left
    have noMore := ih.count_le plain
    rw [List.count_append, List.count_eq_zero.mpr plain, braced_append, List.count_cons_self,
      List.count_append, List.count_cons_of_ne (by decide)]
    omega
  | @other c rest none absent _ ih =>
    have own := comes.own_not_starts_other none absent
    rw [fillIn_cons none, fillIn_cons (not_starts_concat none own), replaceAll_cons _ absent]
    exact ih.behind (comes.completes_cons_iff none absent) [c]

theorem ComesAfter.replaceAll_fillIn (comes : ComesAfter values name) (value : List Char)
    {text : List Char} (clear : ¬ Completes values name text) :
    replaceAll (braced name) value (fillIn values text) = fillIn (values ++ [(name, value)]) text :=
  (comes.compares value text).elim And.right fun both => absurd both.1 clear

/-- Going over a filled in template for one more name makes what a single pass makes, if and only if no
value completes its placeholder. -/
theorem ComesAfter.replaceAll_fillIn_eq_iff (comes : ComesAfter values name) (plain : '\x7b' ∉ value)
    (text : List Char) :
    replaceAll (braced name) value (fillIn values text) = fillIn (values ++ [(name, value)]) text ↔
      ¬ Completes values name text := by
  rcases comes.compares value text with ⟨clear, same⟩ | ⟨completes, fewer⟩
  · exact iff_of_true same clear
  · refine iff_of_false (fun same => ?_) (not_not_intro completes)
    exact absurd (congrArg (List.count '\x7b') same) (fewer plain).ne

theorem fillIn_none (text : List Char) : fillIn [] text = text :=
  fillIn_eq_self nofun

/-- The first placeholder has no values to go over. -/
theorem replaceAll_eq_fillIn (plain : NoBraces name) (value text : List Char) :
    replaceAll (braced name) value text = fillIn [(name, value)] text := by
  have comes : ComesAfter [] name := ⟨⟨List.nodup_nil, nofun⟩, nofun, plain, List.not_mem_nil⟩
  have clear : ¬ Completes [] name text := fun ⟨inner, _, differs, filled⟩ =>
    differs ((fillIn_none inner).symm.trans filled)
  have whole := comes.replaceAll_fillIn value clear
  rwa [fillIn_none, List.nil_append] at whole

/-- What is filled in holds a value, unless nothing is filled in. -/
theorem AreValues.exists_value (areValues : AreValues values) {text : List Char}
    (changed : fillIn values text ≠ text) : ∃ entry ∈ values, entry.2 <:+: fillIn values text := by
  induction text using template_induction values with
  | nil => exact absurd fillIn_nil changed
  | entry key word rest member _ =>
    rw [areValues.fillIn_braced member]
    exact ⟨_, member, (List.prefix_append _ _).isInfix⟩
  | other c rest none ih =>
    rw [fillIn_cons none] at changed ⊢
    obtain ⟨entry, member, inside⟩ := ih fun same => changed (congrArg (c :: ·) same)
    exact ⟨entry, member, inside.trans (List.suffix_cons _ _).isInfix⟩

/-- A value that completes a placeholder is a part of its name. -/
theorem Completes.exists_part (areValues : AreValues values) {text : List Char}
    (completes : Completes values name text) : ∃ entry ∈ values, entry.2 <:+: name := by
  obtain ⟨inner, _, differs, rfl⟩ := completes
  exact areValues.exists_value differs.symm

/-- Values that are no part of a name do not complete its placeholder. -/
theorem not_completes_of_strange (areValues : AreValues values)
    (strange : ∀ entry ∈ values, ∃ c ∈ entry.2, c ∉ name) {text : List Char} :
    ¬ Completes values name text := by
  intro completes
  obtain ⟨entry, member, inside⟩ := completes.exists_part areValues
  obtain ⟨c, here, absent⟩ := strange entry member
  exact absent (inside.subset here)

end BatchFetch.Text
