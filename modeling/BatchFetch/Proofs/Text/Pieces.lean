import BatchFetch.Text.Cut

namespace BatchFetch.Text

theorem pieces_eq_splitOn (sep : Char) (text : List Char) : pieces sep text = text.splitOn sep := by
  induction text with
  | nil => rfl
  | cons c rest ih =>
    rw [pieces, List.splitOn_cons_eq_if_modifyHead]
    by_cases separates : c = sep
    · rw [if_pos separates, if_pos (beq_iff_eq.mpr separates), ih]
    · rw [if_neg separates, if_neg (mt beq_iff_eq.mp separates), ← ih]
      cases cut : pieces sep rest with
      | nil => exact absurd cut (pieces_ne_nil sep rest)
      | cons => rfl

theorem pieces_append (sep : Char) (before after : List Char) :
    pieces sep (before ++ sep :: after) = pieces sep before ++ pieces sep after := by
  rw [pieces_eq_splitOn, pieces_eq_splitOn, pieces_eq_splitOn, List.splitOn_append_cons_self]

theorem pieces_of_not_mem {sep : Char} {text : List Char} (absent : sep ∉ text) :
    pieces sep text = [text] := by
  rw [pieces_eq_splitOn, List.splitOn_eq_singleton absent]

theorem pieces_intercalate {sep : Char} {parts : List (List Char)}
    (absent : ∀ part ∈ parts, sep ∉ part) (some : parts ≠ []) :
    pieces sep ([sep].intercalate parts) = parts := by
  rw [pieces_eq_splitOn, List.splitOn_intercalate sep absent some]

/-- The pieces have the characters of the text but for the one it is cut at. -/
theorem mem_of_mem_pieces {sep c : Char} {text piece : List Char}
    (member : piece ∈ pieces sep text) (inside : c ∈ piece) : c ∈ text ∧ c ≠ sep := by
  induction text generalizing piece with
  | nil =>
    rw [List.mem_singleton.mp member] at inside
    cases inside
  | cons first rest ih =>
    have later {other : List Char} (member : other ∈ pieces sep rest) (inside : c ∈ other) :
        c ∈ first :: rest ∧ c ≠ sep :=
      ⟨List.mem_cons_of_mem _ (ih member inside).1, (ih member inside).2⟩
    rw [pieces] at member
    split at member
    · rcases List.mem_cons.mp member with rfl | member
      · cases inside
      · exact later member inside
    · rename_i differs
      cases cut : pieces sep rest with
      | nil => exact absurd cut (pieces_ne_nil sep rest)
      | cons front more =>
        rw [cut] at member later
        rcases List.mem_cons.mp member with rfl | member
        · rcases List.mem_cons.mp inside with rfl | inside
          · exact ⟨List.mem_cons_self, differs⟩
          · exact later List.mem_cons_self inside
        · exact later (List.mem_cons_of_mem _ member) inside

theorem not_mem_of_mem_pieces {sep : Char} {text piece : List Char}
    (member : piece ∈ pieces sep text) : sep ∉ piece := fun inside =>
  (mem_of_mem_pieces member inside).2 rfl

theorem mem_intercalate {sep c : Char} {parts : List (List Char)}
    (member : c ∈ [sep].intercalate parts) : c = sep ∨ ∃ part ∈ parts, c ∈ part := by
  induction parts with
  | nil => cases member
  | cons first rest ih =>
    cases rest with
    | nil =>
      rw [List.intercalate_singleton] at member
      exact Or.inr ⟨first, List.mem_cons_self, member⟩
    | cons second more =>
      rw [List.intercalate_cons_cons, List.append_assoc] at member
      rcases List.mem_append.mp member with inside | later
      · exact Or.inr ⟨first, List.mem_cons_self, inside⟩
      · rcases List.mem_cons.mp later with separates | later
        · exact Or.inl separates
        · exact (ih later).imp_right fun ⟨part, member, inside⟩ =>
            ⟨part, List.mem_cons_of_mem _ member, inside⟩

theorem exists_intercalate_cons (sep : Char) (first : List Char) (rest : List (List Char)) :
    ∃ more, [sep].intercalate (first :: rest) = first ++ more := by
  cases rest with
  | nil => exact ⟨[], by rw [List.intercalate_singleton, List.append_nil]⟩
  | cons => exact ⟨_, by rw [List.intercalate_cons_cons, List.append_assoc]⟩

/-- Parts that are not empty are known from the text that they are joined to. -/
theorem intercalate_inj {sep : Char} {parts others : List (List Char)}
    (first : ∀ part ∈ parts, part ≠ [] ∧ sep ∉ part)
    (second : ∀ part ∈ others, part ≠ [] ∧ sep ∉ part)
    (equal : [sep].intercalate parts = [sep].intercalate others) : parts = others := by
  have nonempty {parts : List (List Char)} (proper : ∀ part ∈ parts, part ≠ [] ∧ sep ∉ part)
      (empty : [sep].intercalate parts = []) : parts = [] := by
    by_cases none : parts = []
    · exact none
    · have cut := pieces_intercalate (fun part member => (proper part member).2) none
      rw [empty] at cut
      have inside : [] ∈ parts := by
        rw [← cut]
        exact List.mem_singleton_self _
      exact absurd rfl (proper [] inside).1
  by_cases none : parts = []
  · rw [none, List.intercalate_nil] at equal
    rw [none, nonempty second equal.symm]
  · by_cases noOther : others = []
    · rw [noOther, List.intercalate_nil] at equal
      rw [noOther, nonempty first equal]
    · rw [← pieces_intercalate (fun part member => (first part member).2) none, equal,
        pieces_intercalate (fun part member => (second part member).2) noOther]

/-- Two texts that are joined by a character are known from the whole, if the first is free of it. -/
theorem append_sep_inj {sep : Char} {before after front back : List Char} (first : sep ∉ before)
    (second : sep ∉ front) (equal : before ++ sep :: after = front ++ sep :: back) :
    before = front ∧ after = back := by
  rcases List.append_eq_append_iff.mp equal with ⟨more, longer, rest⟩ | ⟨more, longer, rest⟩
  · cases more with
    | nil =>
      rw [List.append_nil] at longer
      exact ⟨longer.symm, (List.cons.inj rest).2⟩
    | cons c more =>
      rw [← (List.cons.inj rest).1] at longer
      exact absurd (longer ▸ List.mem_append_right _ List.mem_cons_self) second
  · cases more with
    | nil =>
      rw [List.append_nil] at longer
      exact ⟨longer, (List.cons.inj rest).2.symm⟩
    | cons c more =>
      rw [← (List.cons.inj rest).1] at longer
      exact absurd (longer ▸ List.mem_append_right _ List.mem_cons_self) first

/-- A text is cut at the first occurrence. -/
theorem cutFirst_append {sep : Char} {before : List Char} (absent : sep ∉ before)
    (after : List Char) : cutFirst sep (before ++ sep :: after) = some (before, after) := by
  induction before with
  | nil => exact if_pos rfl
  | cons c rest ih =>
    obtain ⟨other, absentLater⟩ := List.ne_and_not_mem_of_not_mem_cons absent
    rw [List.cons_append, cutFirst, if_neg other.symm, ih absentLater]
    rfl

theorem cutFirst_eq_none_iff {sep : Char} {text : List Char} :
    cutFirst sep text = none ↔ sep ∉ text := by
  induction text with
  | nil => exact ⟨fun _ => List.not_mem_nil, fun _ => rfl⟩
  | cons c rest ih =>
    rw [cutFirst, List.mem_cons, not_or]
    split
    · rename_i separates
      exact ⟨fun none => (nomatch none), fun absent => absurd separates.symm absent.1⟩
    · rename_i other
      rw [Option.map_eq_none_iff, ih]
      exact ⟨fun absent => ⟨Ne.symm other, absent⟩, And.right⟩

theorem cutFirst_eq_some_iff {sep : Char} {text before after : List Char} :
    cutFirst sep text = some (before, after) ↔ text = before ++ sep :: after ∧ sep ∉ before := by
  constructor
  · intro cut
    induction text generalizing before with
    | nil => cases cut
    | cons c rest ih =>
      rw [cutFirst] at cut
      split at cut
      · rename_i separates
        cases cut
        exact ⟨congrArg (List.cons · _) separates, List.not_mem_nil⟩
      · rename_i other
        obtain ⟨⟨front, back⟩, found, equal⟩ := Option.map_eq_some_iff.mp cut
        cases equal
        obtain ⟨whole, absent⟩ := ih found
        exact ⟨congrArg (c :: ·) whole, List.not_mem_cons_of_ne_of_not_mem (Ne.symm other) absent⟩
  · rintro ⟨rfl, absent⟩
    exact cutFirst_append absent after

theorem cutLast_eq_none_iff {sep : Char} {text : List Char} :
    cutLast sep text = none ↔ sep ∉ text := by
  induction text with
  | nil => exact ⟨fun _ => List.not_mem_nil, fun _ => rfl⟩
  | cons c rest ih =>
    rw [cutLast, List.mem_cons, not_or, ← ih]
    cases cutLast sep rest with
    | some => exact ⟨fun none => (nomatch none), fun both => (nomatch both.2)⟩
    | none =>
      simp only [ite_eq_right_iff, reduceCtorEq, imp_false, and_true]
      exact ne_comm

/-- A text is cut at the last occurrence. -/
theorem cutLast_append {sep : Char} (before : List Char) {after : List Char} (absent : sep ∉ after) :
    cutLast sep (before ++ sep :: after) = some (before, after) := by
  induction before with
  | nil => rw [List.nil_append, cutLast, cutLast_eq_none_iff.mpr absent]; exact if_pos rfl
  | cons c rest ih => rw [List.cons_append, cutLast, ih]

theorem cutLast_eq_some_iff {sep : Char} {text before after : List Char} :
    cutLast sep text = some (before, after) ↔ text = before ++ sep :: after ∧ sep ∉ after := by
  constructor
  · intro cut
    induction text generalizing before with
    | nil => cases cut
    | cons c rest ih =>
      rw [cutLast] at cut
      split at cut
      · rename_i found
        cases cut
        obtain ⟨whole, absent⟩ := ih found
        exact ⟨congrArg (c :: ·) whole, absent⟩
      · rename_i none
        split at cut
        · rename_i separates
          cases cut
          exact ⟨congrArg (List.cons · _) separates, cutLast_eq_none_iff.mp none⟩
        · cases cut
  · rintro ⟨rfl, absent⟩
    exact cutLast_append before absent

/-- A mark and what stands behind it, or nothing. -/
def behind (mark : Char) : Option (List Char) → List Char
  | none => []
  | some text => mark :: text

theorem append_behind_inj {mark : Char} {before front : List Char} {after back : Option (List Char)}
    (first : mark ∉ before) (second : mark ∉ front)
    (equal : before ++ behind mark after = front ++ behind mark back) :
    before = front ∧ after = back := by
  have marked (text : List Char) : mark ∈ behind mark (some text) := List.mem_cons_self
  cases after with
  | none =>
    rw [behind, List.append_nil] at equal
    cases back with
    | none =>
      rw [behind, List.append_nil] at equal
      exact ⟨equal, rfl⟩
    | some text => exact absurd (equal ▸ List.mem_append_right _ (marked text)) first
  | some text =>
    cases back with
    | none =>
      rw [behind, behind, List.append_nil] at equal
      exact absurd (equal ▸ List.mem_append_right _ (marked text)) second
    | some other =>
      obtain ⟨same, rest⟩ := append_sep_inj first second equal
      exact ⟨same, congrArg some rest⟩

end BatchFetch.Text
