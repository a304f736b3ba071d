import BatchFetch.Text.Blank
import Mathlib.Data.List.DropRight

namespace BatchFetch.Text

theorem trimEnd_eq (cs : List Char) : trimEnd cs = cs.rdropWhile isBlank := rfl

theorem trim_subset (cs : List Char) : trim cs ⊆ cs := fun _ member =>
  (List.dropWhile_suffix isBlank).subset ((List.rdropWhile_prefix isBlank _).subset member)

theorem trim_trim (cs : List Char) : trim (trim cs) = trim cs := by
  have start : trimStart (trim cs) = trim cs := by
    cases trimmed : trim cs with
    | nil => rfl
    | cons c rest =>
      obtain ⟨blanks, cut⟩ := List.rdropWhile_prefix isBlank (trimStart cs)
      have first := List.head?_dropWhile_not isBlank cs
      rw [← trimStart, ← cut, ← trimEnd_eq, ← trim, trimmed] at first
      exact List.dropWhile_cons_of_neg (Bool.eq_false_iff.mp first)
  rw [trim, start, trimEnd_eq, trim, trimEnd_eq, List.rdropWhile_idempotent]

theorem not_isBlank_of_getLast? {cs : List Char} {c : Char} (last : (trim cs).getLast? = some c) :
    isBlank c = false := by
  have some : trim cs ≠ [] := by
    intro none
    rw [none] at last
    cases last
  have kept := List.rdropWhile_last_not isBlank (trimStart cs) some
  rw [List.getLast?_eq_some_getLast some] at last
  rw [← Option.some.inj last]
  exact Bool.eq_false_iff.mpr kept

theorem trim_append_blank (cs : List Char) {after : List Char} (blank : ∀ c ∈ after, isBlank c) :
    trim (cs ++ after) = trim cs := by
  have ended (text : List Char) : trimEnd (text ++ after) = trimEnd text := by
    rw [trimEnd, List.reverse_append, List.dropWhile_append_of_pos fun c member =>
      blank c (List.mem_reverse.mp member), trimEnd]
  rw [trim, trim, trimStart, trimStart, List.dropWhile_append]
  split
  · rename_i none
    rw [List.isEmpty_iff.mp none, List.dropWhile_eq_nil_iff.mpr blank]
  · exact ended _

theorem trim_blank_append {before : List Char} (blank : ∀ c ∈ before, isBlank c) (cs : List Char) :
    trim (before ++ cs) = trim cs := by
  rw [trim, trimStart, List.dropWhile_append_of_pos blank]
  rfl

/-- Blank characters around a text do not matter. -/
theorem trim_padded {before after : List Char} (cs : List Char)
    (blankBefore : ∀ c ∈ before, isBlank c) (blankAfter : ∀ c ∈ after, isBlank c) :
    trim (before ++ cs ++ after) = trim cs := by
  rw [trim_append_blank _ blankAfter, trim_blank_append blankBefore]

/-- The first character that is not blank stays. -/
theorem head?_trim {before : List Char} (blank : ∀ c ∈ before, isBlank c) {c : Char}
    (visible : isBlank c = false) (rest : List Char) :
    (trim (before ++ c :: rest)).head? = some c := by
  have start : trimStart (before ++ c :: rest) = c :: rest := by
    rw [trimStart, List.dropWhile_append_of_pos blank,
      List.dropWhile_cons_of_neg (Bool.eq_false_iff.mp visible)]
  rw [trim, start, trimEnd_eq]
  obtain ⟨blanks, cut⟩ := List.rdropWhile_prefix isBlank (c :: rest)
  cases kept : (c :: rest).rdropWhile isBlank with
  | nil =>
    have all := List.rdropWhile_eq_nil_iff.mp kept c List.mem_cons_self
    exact absurd all (Bool.eq_false_iff.mp visible)
  | cons first more =>
    rw [kept, List.cons_append, List.cons.injEq] at cut
    rw [List.head?_cons, cut.1]

theorem trim_eq_nil {cs : List Char} (blank : ∀ c ∈ cs, isBlank c) : trim cs = [] := by
  rw [← List.nil_append cs, trim_append_blank [] blank]
  rfl

theorem trim_eq_self {cs : List Char} (first : ∀ c, cs.head? = some c → isBlank c = false)
    (last : ∀ c, cs.getLast? = some c → isBlank c = false) : trim cs = cs := by
  have start : trimStart cs = cs := by
    rw [trimStart, List.dropWhile_eq_self_iff]
    intro some
    exact Bool.eq_false_iff.mp (first _ (List.head?_eq_getElem?.trans (List.getElem?_eq_getElem some)))
  rw [trim, start, trimEnd_eq, List.rdropWhile_eq_self_iff]
  intro some
  exact Bool.eq_false_iff.mp (last _ (List.getLast?_eq_some_getLast some))

theorem trimStart_eq_self_iff {cs : List Char} :
    trimStart cs = cs ↔ ∀ c ∈ cs.head?, isBlank c = false := by
  cases cs with
  | nil => simp [trimStart]
  | cons c rest => simp [trimStart, List.dropWhile_eq_self_iff]

theorem trimEnd_eq_self_iff {cs : List Char} :
    trimEnd cs = cs ↔ ∀ c ∈ cs.getLast?, isBlank c = false := by
  rw [trimEnd, List.reverse_eq_iff, ← trimStart, trimStart_eq_self_iff, List.head?_reverse]

theorem trim_eq_self_iff {cs : List Char} :
    trim cs = cs ↔
      (∀ c ∈ cs.head?, isBlank c = false) ∧ ∀ c ∈ cs.getLast?, isBlank c = false := by
  refine ⟨fun whole => ?_, fun ⟨first, last⟩ => trim_eq_self first last⟩
  have last (c : Char) (ends : c ∈ cs.getLast?) : isBlank c = false :=
    not_isBlank_of_getLast? (whole ▸ ends)
  refine ⟨trimStart_eq_self_iff.mp ?_, last⟩
  -- what is left after both ends were trimmed is no longer than after the first of them
  have shorter := (List.rdropWhile_prefix isBlank (trimStart cs)).length_le
  rw [← trimEnd_eq, ← trim, whole] at shorter
  exact (List.dropWhile_suffix isBlank).eq_of_length_le shorter

/-- A text around a character that is not blank is trimmed if each part is at its own end. -/
theorem trim_append_cons_eq_self_iff {before after : List Char} {c : Char}
    (visible : isBlank c = false) :
    trim (before ++ c :: after) = before ++ c :: after ↔
      trimStart before = before ∧ trimEnd after = after := by
  rw [trim_eq_self_iff, trimStart_eq_self_iff, trimEnd_eq_self_iff]
  refine and_congr ?_ ?_
  · cases before <;> simp [visible]
  · rw [List.getLast?_append, List.getLast?_cons]
    cases after.getLast? <;> simp [visible]

theorem trimmed_trimmed (s : String) : trimmed (trimmed s) = trimmed s := by
  rw [trimmed, trimmed, String.toList_ofList, trim_trim]

theorem trim_eq_of_trimmed {s : String} (same : trimmed s = s) : trim s.toList = s.toList := by
  rw [← String.toList_ofList (l := trim s.toList)]
  exact congrArg String.toList same

end BatchFetch.Text
