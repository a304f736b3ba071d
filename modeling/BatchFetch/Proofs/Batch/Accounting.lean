import BatchFetch.Proofs.Batch.Written
import BatchFetch.Proofs.Directive.Reading
import Mathlib.Algebra.GroupWithZero.Nat

namespace BatchFetch

theorem Malformed.ofLine?_eq_some_iff {line : String} {problem : Malformed} :
    ofLine? line = some problem ↔ (Text.trim line.toList).head? = some '-' ∧
      Directive.parse (Text.trim line.toList) = .error problem := by
  unfold ofLine?
  split
  · rename_i dash
    rw [dash]
    cases Directive.parse (Text.trim line.toList) <;> simp
  · rename_i noDash
    exact ⟨nofun, fun both => absurd both.1 noDash⟩

theorem Warning.mem_ofLines_iff {lines : List String} {warning : Warning} :
    warning ∈ ofLines lines ↔ ∃ line, (line, warning.line) ∈ lines.zipIdx 1 ∧
      Malformed.ofLine? line = some warning.problem := by
  obtain ⟨number, problem⟩ := warning
  simp only [ofLines, ofLinesFrom, List.mem_filterMap, Option.map_eq_some_iff, Prod.exists,
    Warning.mk.injEq]
  constructor
  · rintro ⟨line, _, member, _, found, rfl, rfl⟩
    exact ⟨line, member, found⟩
  · rintro ⟨line, member, found⟩
    exact ⟨line, number, member, problem, found, rfl, rfl⟩

theorem Warning.length_ofLinesFrom (number : Nat) (lines : List String) :
    (ofLinesFrom number lines).length = (lines.filterMap Malformed.ofLine?).length := by
  induction lines generalizing number with
  | nil => rfl
  | cons line rest ih =>
    rw [ofLinesFrom_cons, List.length_append, ih, List.filterMap_cons]
    cases Malformed.ofLine? line with
    | none => exact Nat.zero_add _
    | some problem => exact Nat.add_comm _ _

namespace LineReader

/-- One call reads the lines up to the next target, or all that are left. -/
theorem next_passes (reader : LineReader) (lines : List String) :
    ∃ read, lines = read ++ (reader.next lines).2.2 ∧
      reader.Passes read (reader.next lines).2.1 := by
  induction lines generalizing reader with
  | nil => exact ⟨[], rfl, reader.passes_clear⟩
  | cons line rest ih =>
    by_cases target : IsTarget line
    · rw [next_of_target target]
      exact ⟨[line], rfl, passes_target target reader⟩
    · rw [next_of_quiet target]
      obtain ⟨read, cut, passes⟩ := ih (reader.pass line)
      exact ⟨line :: read, congrArg (line :: ·) cut, (passes_quiet target reader).trans passes⟩

theorem call_passes (reader : LineReader) (lines : List String) (n : Nat) :
    ∃ read, lines = read ++ (reader.call lines n).2.2 ∧
      reader.Passes read (reader.call lines n).2.1 := by
  induction n generalizing reader lines with
  | zero => exact reader.next_passes lines
  | succ n ih =>
    obtain ⟨first, cut, passes⟩ := reader.next_passes lines
    rcases answered : reader.next lines with ⟨answer, middle, rest⟩
    rw [answered] at cut passes
    obtain ⟨second, cutRest, further⟩ := ih middle rest
    rw [call_succ answered]
    refine ⟨first ++ second, ?_, passes.trans further⟩
    rw [List.append_assoc, ← cutRest]
    exact cut

end LineReader

theorem Directive.ofLine?_of_target {line : String} (target : IsTarget line) :
    ofLine? line = none :=
  if_neg target.2.2

/-- A line is of just one kind. -/
theorem line_count (line : String) :
    (if IsSignificant line then 0 else 1) + (if IsTarget line then 1 else 0) +
      (Directive.ofLine? line).toList.length + (Malformed.ofLine? line).toList.length = 1 := by
  by_cases target : IsTarget line
  · rw [if_pos target.isSignificant, if_pos target, Directive.ofLine?_of_target target,
      Malformed.ofLine?_of_target target]
    rfl
  · rw [if_neg target]
    by_cases dash : (Text.trim line.toList).head? = some '-'
    · rw [if_pos (isSignificant_of_dash dash), Directive.ofLine?, if_pos dash, Malformed.ofLine?,
        if_pos dash]
      cases Directive.parse (Text.trim line.toList) <;> rfl
    · have ignored : ¬IsSignificant line := fun significant =>
        target ⟨significant.1, significant.2, dash⟩
      rw [if_neg ignored, Directive.ofLine?, if_neg dash, Malformed.ofLine?, if_neg dash]
      rfl

theorem length_lines (lines : List String) :
    lines.length = lines.countP (¬IsSignificant ·) + lines.countP IsTarget +
      (lines.filterMap Directive.ofLine?).length + (lines.filterMap Malformed.ofLine?).length := by
  induction lines with
  | nil => rfl
  | cons line rest ih =>
    have here := line_count line
    simp only [List.filterMap_eq_flatMap_toList] at ih ⊢
    simp only [List.length_cons, List.countP_cons, List.flatMap_cons, List.length_append,
      decide_eq_true_eq, ite_not]
    omega

namespace Stretch

/-- What is said above a target goes to its item, each directive once. -/
theorem length_item (stretch : Stretch) :
    stretch.item.globals.length + stretch.item.locals.length =
      (stretch.lines.filterMap Directive.ofLine?).length := by
  have parted := List.length_eq_length_filter_add (l := stretch.above.filterMap Directive.ofLine?)
    fun directive => directive.scope = .global
  have others : ∀ directive : Directive,
      (!decide (directive.scope = .global)) = decide (directive.scope = .oneTarget) := by
    intro directive
    cases directive.scope <;> rfl
  simp only [others] at parted
  have target : [stretch.target].filterMap Directive.ofLine? = [] :=
    List.filterMap_cons_none (Directive.ofLine?_of_target stretch.isTarget)
  rw [item_globals, item_locals, lines, List.filterMap_append, target, List.append_nil, parted]
  rfl

theorem sum_length_item (stretches : List Stretch) :
    ((stretches.map item).map fun item => item.globals.length + item.locals.length).sum =
      ((stretches.flatMap lines).filterMap Directive.ofLine?).length := by
  induction stretches with
  | nil => rfl
  | cons stretch more ih =>
    rw [List.map_cons, List.map_cons, List.sum_cons, ih, length_item, List.flatMap_cons,
      List.filterMap_append, List.length_append]

/-- The rest of a cut is what stands behind the last target. -/
theorem rtakeWhile_cut (stretches : List Stretch) {tail : List String}
    (quietTail : ∀ line ∈ tail, ¬IsTarget line) :
    (stretches.flatMap lines ++ tail).rtakeWhile (¬IsTarget ·) = tail := by
  induction tail using List.reverseRecOn with
  | nil =>
    rw [List.append_nil]
    cases stretches using List.reverseRecOn with
    | nil => rfl
    | append_singleton more stretch =>
      have target : ¬(decide ¬IsTarget stretch.target) = true := by simp [stretch.isTarget]
      rw [List.flatMap_append, List.flatMap_singleton, lines, ← List.append_assoc,
        List.rtakeWhile_concat, if_neg target]
  | append_singleton tail line ih =>
    obtain ⟨quiet, last⟩ := List.forall_mem_append.mp quietTail
    have here : (decide ¬IsTarget line) = true :=
      decide_eq_true (last line (List.mem_singleton_self line))
    rw [← List.append_assoc, List.rtakeWhile_concat, if_pos here, ih quiet]

end Stretch

/-- Each target makes an item, and what is said above it is all that the item has. -/
theorem Item.length_ofLines (lines : List String) :
    (ofLines lines).length = lines.countP IsTarget ∧
      (lines.filterMap Directive.ofLine?).length =
        ((ofLines lines).map fun item => item.globals.length + item.locals.length).sum +
          ((lines.rtakeWhile (¬IsTarget ·)).filterMap Directive.ofLine?).length := by
  obtain ⟨stretches, tail, rfl, quietTail⟩ := Stretch.exists_cut lines
  have start : ({} : LineReader).Idle 0 := ⟨rfl, rfl⟩
  rw [ofLines, LineReader.items_of_cut stretches quietTail start, Stretch.rtakeWhile_cut _ quietTail,
    Stretch.sum_length_item, List.countP_eq_length_filter, Stretch.filter_cut quietTail,
    List.length_map, List.length_map, List.filterMap_append, List.length_append]
  exact ⟨rfl, rfl⟩

theorem Item.ofLines_filter_wellFormed (lines : List String) :
    ofLines (lines.filter fun line => (Malformed.ofLine? line).isNone) = ofLines lines := by
  refine (LineReader.items_filter (fun line dropped => ?_) (fun _ => rfl) lines).symm
  obtain ⟨problem, found⟩ := Option.isSome_iff_exists.mp (Option.isNone_eq_false_iff.mp dropped)
  obtain ⟨dash, failed⟩ := Malformed.ofLine?_eq_some_iff.mp found
  refine ⟨fun target => target.2.2 dash, ?_⟩
  rw [Directive.ofLine?, if_pos dash, failed]
  rfl

/-- The warnings are those about the rejected lines, each with the number of its line and with what
is wrong there, and they are logged one by one under the name of the source. Every line is ignored,
a target, an accepted directive or one with a warning, and accepted directives belong to an item or
stand behind the last target. Without the rejected lines the items are the same. After any number
of calls the reader has reported just on the lines that it has read. -/
theorem LineReader.accounts_for_lines (lines : List String) (origin : String) :
    let reader : LineReader := { origin }
    let items := (reader.items lines).1
    let last := (reader.items lines).2
    let logged (lines : List String) : List Event :=
      (Warning.ofLines lines).map fun warning => .warn s!"{origin}: {warning.message}"
    last.warnings = Warning.ofLines lines ∧ last.events = logged lines ∧
      (∀ warning, warning ∈ last.warnings ↔ ∃ line, (line, warning.line) ∈ lines.zipIdx 1 ∧
        (Text.trim line.toList).head? = some '-' ∧
        Directive.parse (Text.trim line.toList) = .error warning.problem ∧
        warning.problem.IsFaultOf (Directive.scopeOf (Text.trim line.toList)).2) ∧
      lines.length = lines.countP (¬IsSignificant ·) + items.length +
        (lines.filterMap Directive.ofLine?).length + last.warnings.length ∧
      (lines.filterMap Directive.ofLine?).length =
        (items.map fun item => item.globals.length + item.locals.length).sum +
          ((lines.rtakeWhile (¬IsTarget ·)).filterMap Directive.ofLine?).length ∧
      Item.ofLines (lines.filter fun line => (Malformed.ofLine? line).isNone) = items ∧
      ∀ n, ∃ read, lines = read ++ (reader.call lines n).2.2 ∧
        (reader.call lines n).2.1.read = read.length ∧
        (reader.call lines n).2.1.warnings = Warning.ofLines read ∧
        (reader.call lines n).2.1.events = logged read := by
  intro reader items last logged
  have whole : reader.Passes lines last := reader.items_passes lines
  have own : items = Item.ofLines lines := items_origin origin lines
  obtain ⟨targets, accepted⟩ := Item.length_ofLines lines
  have counted := length_lines lines
  rw [← targets, ← Warning.length_ofLinesFrom 1] at counted
  rw [own]
  refine ⟨whole.warnings, whole.events, fun warning => ?_, ?_, accepted,
    Item.ofLines_filter_wellFormed lines, fun n => ?_⟩
  · rw [whole.warnings]
    refine Warning.mem_ofLines_iff.trans (exists_congr fun line => and_congr_right fun _ => ?_)
    rw [Malformed.ofLine?_eq_some_iff, Directive.parse_eq_error_iff, and_self]
  · rw [whole.warnings]
    exact counted
  · obtain ⟨read, cut, passes⟩ := reader.call_passes lines n
    have numbered := passes.read
    rw [Nat.zero_add] at numbered
    exact ⟨read, cut, numbered, passes.warnings, passes.events⟩

end BatchFetch
