import BatchFetch.Batch.Lines

namespace BatchFetch

/-- Something is left of the line once it is trimmed, and it starts with neither `#` nor `-`. -/
def IsTarget (line : String) : Prop :=
  Text.trim line.toList ≠ [] ∧ (Text.trim line.toList).head? ≠ some '#' ∧
    (Text.trim line.toList).head? ≠ some '-'

instance (line : String) : Decidable (IsTarget line) :=
  inferInstanceAs (Decidable (_ ∧ _ ∧ _))

/-- What a directive line says, where `parse` accepts it. -/
def Directive.ofLine? (line : String) : Option Directive :=
  if (Text.trim line.toList).head? = some '-' then (parse (Text.trim line.toList)).toOption
  else none

/-- The directives of one scope in a list of lines, in the order of the lines. -/
def Directive.written (scope : Scope) (lines : List String) : List Directive :=
  (lines.filterMap ofLine?).filter fun directive => directive.scope = scope

theorem Directive.written_append (scope : Scope) (first second : List String) :
    written scope (first ++ second) = written scope first ++ written scope second := by
  simp only [written, List.filterMap_append, List.filter_append]

theorem Directive.written_singleton (scope : Scope) (line : String) :
    written scope [line] =
      (ofLine? line).toList.filter fun directive => directive.scope = scope := by
  cases said : ofLine? line with
  | none => rw [written, List.filterMap_cons_none said, List.filterMap_nil, Option.toList_none]
  | some directive => rw [written, List.filterMap_cons_some said, List.filterMap_nil,
      Option.toList_some]

/-- A target with the lines above it, down from the target before. -/
structure Stretch where
  above : List String
  target : String
  quiet : ∀ line ∈ above, ¬ IsTarget line
  isTarget : IsTarget target

namespace Stretch

def lines (stretch : Stretch) : List String :=
  stretch.above ++ [stretch.target]

def globals (stretch : Stretch) : List Directive :=
  Directive.written .global stretch.above

def locals (stretch : Stretch) : List Directive :=
  Directive.written .oneTarget stretch.above

/-- The item of the target: plain if no directive is written above it. -/
def item (stretch : Stretch) : Item :=
  if stretch.globals = [] ∧ stretch.locals = [] then .plain (Text.trimmed stretch.target)
  else .enriched (Text.trimmed stretch.target) stretch.globals stretch.locals

theorem item_parts (stretch : Stretch) :
    stretch.item.parts = (Text.trimmed stretch.target, stretch.globals, stretch.locals) := by
  unfold item
  split
  · rename_i none
    rw [none.1, none.2]
    rfl
  · rfl

theorem item_value (stretch : Stretch) : stretch.item.value = Text.trimmed stretch.target :=
  congrArg Prod.fst stretch.item_parts

theorem item_globals (stretch : Stretch) : stretch.item.globals = stretch.globals :=
  congrArg (·.2.1) stretch.item_parts

theorem item_locals (stretch : Stretch) : stretch.item.locals = stretch.locals :=
  congrArg (·.2.2) stretch.item_parts

theorem length_lines (stretch : Stretch) : stretch.lines.length = stretch.above.length + 1 := by
  simp only [lines, List.length_append, List.length_singleton]

theorem filter_lines (stretch : Stretch) : stretch.lines.filter IsTarget = [stretch.target] := by
  have above : stretch.above.filter IsTarget = [] := by
    rw [List.filter_eq_nil_iff]
    intro line member
    simpa only [decide_eq_true_eq] using stretch.quiet line member
  rw [lines, List.filter_append, above, List.nil_append]
  simp only [List.filter_cons, stretch.isTarget, decide_true, if_true, List.filter_nil]

/-- A list of lines is a list of stretches and a rest without a target. -/
theorem exists_cut (lines : List String) :
    ∃ (stretches : List Stretch) (tail : List String),
      lines = stretches.flatMap Stretch.lines ++ tail ∧ ∀ line ∈ tail, ¬ IsTarget line := by
  induction lines with
  | nil => exact ⟨[], [], rfl, by simp⟩
  | cons line rest ih =>
    obtain ⟨stretches, tail, cut, quietTail⟩ := ih
    by_cases target : IsTarget line
    · refine ⟨⟨[], line, by simp, target⟩ :: stretches, tail, ?_, quietTail⟩
      rw [cut]
      rfl
    · cases stretches with
      | nil =>
        refine ⟨[], line :: tail, ?_, ?_⟩
        · rw [cut]
          rfl
        · intro other member
          rcases List.mem_cons.mp member with equal | inTail
          · rw [equal]
            exact target
          · exact quietTail other inTail
      | cons stretch more =>
        have quiet : ∀ other ∈ line :: stretch.above, ¬ IsTarget other := by
          intro other member
          rcases List.mem_cons.mp member with equal | inAbove
          · rw [equal]
            exact target
          · exact stretch.quiet other inAbove
        refine ⟨⟨line :: stretch.above, stretch.target, quiet, stretch.isTarget⟩ :: more, tail, ?_,
          quietTail⟩
        rw [cut]
        rfl

theorem filter_cut {stretches : List Stretch} {tail : List String}
    (quietTail : ∀ line ∈ tail, ¬ IsTarget line) :
    (stretches.flatMap Stretch.lines ++ tail).filter IsTarget = stretches.map Stretch.target := by
  induction stretches with
  | nil =>
    rw [List.flatMap_nil, List.nil_append, List.map_nil, List.filter_eq_nil_iff]
    intro line member
    simpa only [decide_eq_true_eq] using quietTail line member
  | cons stretch more ih =>
    rw [List.flatMap_cons, List.append_assoc, List.filter_append, ih, filter_lines]
    rfl

end Stretch

theorem LineKind.of_target {line : String} (target : IsTarget line) :
    LineKind.of line = .target (Text.trim line.toList) := by
  obtain ⟨something, noComment, noDash⟩ := target
  unfold LineKind.of
  split
  · contradiction
  · rename_i trimmed
    exact absurd (by rw [trimmed]; rfl) noComment
  · rename_i trimmed
    exact absurd (by rw [trimmed]; rfl) noDash
  · rfl

theorem LineKind.of_quiet {line : String} (quiet : ¬ IsTarget line) :
    (LineKind.of line = .ignored ∧ Directive.ofLine? line = none) ∨
      (LineKind.of line = .directive (Text.trim line.toList) ∧
        Directive.ofLine? line = (Directive.parse (Text.trim line.toList)).toOption) := by
  unfold IsTarget at quiet
  unfold LineKind.of Directive.ofLine?
  split
  · rename_i trimmed
    left
    rw [trimmed]
    exact ⟨rfl, rfl⟩
  · rename_i rest trimmed
    left
    rw [trimmed]
    exact ⟨rfl, rfl⟩
  · rename_i rest trimmed
    right
    rw [trimmed]
    exact ⟨rfl, rfl⟩
  · rename_i text something noComment noDash
    refine absurd ⟨something, ?_, ?_⟩ quiet
    · intro comment
      obtain ⟨rest, trimmed⟩ := List.head?_eq_some_iff.mp comment
      exact noComment rest trimmed
    · intro dash
      obtain ⟨rest, trimmed⟩ := List.head?_eq_some_iff.mp dash
      exact noDash rest trimmed

namespace LineReader

/-- The directives of one scope that wait. -/
def queued (reader : LineReader) : Scope → List Directive
  | .global => reader.globals
  | .oneTarget => reader.locals

theorem pending_eq_zero_iff (reader : LineReader) :
    reader.pending = 0 ↔ ∀ scope, reader.queued scope = [] := by
  constructor
  · intro none scope
    cases scope with
    | global => exact List.eq_nil_of_length_eq_zero (Nat.eq_zero_of_add_eq_zero_right none)
    | oneTarget => exact List.eq_nil_of_length_eq_zero (Nat.eq_zero_of_add_eq_zero_left none)
  · intro empty
    have globals : reader.globals = [] := empty .global
    have locals : reader.locals = [] := empty .oneTarget
    rw [pending, globals, locals]
    rfl

/-- Take in a line that is no target. -/
def pass (reader : LineReader) (line : String) : LineReader :=
  match LineKind.of line with
  | .directive text => { reader with read := reader.read + 1 }.queue text
  | _ => { reader with read := reader.read + 1 }

theorem queue_read (reader : LineReader) (text : List Char) :
    (reader.queue text).read = reader.read := by
  unfold queue
  split
  · split <;> rfl
  · rfl

theorem queue_queued (reader : LineReader) (text : List Char) (scope : Scope) :
    (reader.queue text).queued scope =
      reader.queued scope ++
        (Directive.parse text).toOption.toList.filter fun directive => directive.scope = scope := by
  unfold queue
  cases parsed : Directive.parse text with
  | error problem => cases scope <;> simp [queued, Except.toOption]
  | ok directive =>
    cases within : directive.scope <;> cases scope <;> simp [queued, Except.toOption, within]

theorem pass_read (reader : LineReader) (line : String) :
    (reader.pass line).read = reader.read + 1 := by
  unfold pass
  split
  · rw [queue_read]
  · rfl

/-- A line that is no target adds to what waits just what it says. -/
theorem pass_queued {line : String} (quiet : ¬ IsTarget line) (reader : LineReader)
    (scope : Scope) :
    (reader.pass line).queued scope = reader.queued scope ++ Directive.written scope [line] := by
  rw [Directive.written_singleton]
  rcases LineKind.of_quiet quiet with ⟨ignored, nothing⟩ | ⟨directive, said⟩
  · have passed : reader.pass line = { reader with read := reader.read + 1 } := by
      rw [pass, ignored]
    rw [passed, nothing, Option.toList_none, List.filter_nil, List.append_nil]
    cases scope <;> rfl
  · have passed : reader.pass line =
        { reader with read := reader.read + 1 }.queue (Text.trim line.toList) := by
      rw [pass, directive]
    rw [passed, queue_queued, said]
    cases scope <;> rfl

theorem next_of_quiet {line : String} (quiet : ¬ IsTarget line) (reader : LineReader)
    (rest : List String) : reader.next (line :: rest) = (reader.pass line).next rest := by
  rcases LineKind.of_quiet quiet with ⟨ignored, _⟩ | ⟨directive, _⟩
  · rw [next, pass, ignored]
  · rw [next, pass, directive]

theorem next_of_target {line : String} (target : IsTarget line) (reader : LineReader)
    (rest : List String) :
    reader.next (line :: rest) =
      (some (.ofPending (Text.trimmed line) reader.globals reader.locals),
        { reader with read := reader.read + 1 }.clear, rest) := by
  rw [next, LineKind.of_target target]
  rfl

theorem next_append {above : List String} (quiet : ∀ line ∈ above, ¬ IsTarget line)
    (reader : LineReader) (rest : List String) :
    reader.next (above ++ rest) = (above.foldl pass reader).next rest := by
  induction above generalizing reader with
  | nil => rfl
  | cons line above ih =>
    rw [List.cons_append, next_of_quiet (quiet line List.mem_cons_self),
      ih fun other member => quiet other (List.mem_cons_of_mem line member)]
    rfl

theorem foldl_pass_read (reader : LineReader) (lines : List String) :
    (lines.foldl pass reader).read = reader.read + lines.length := by
  induction lines generalizing reader with
  | nil => rfl
  | cons line rest ih =>
    rw [List.foldl_cons, ih, pass_read, List.length_cons]
    omega

theorem foldl_pass_queued {lines : List String} (quiet : ∀ line ∈ lines, ¬ IsTarget line)
    (reader : LineReader) (scope : Scope) :
    (lines.foldl pass reader).queued scope =
      reader.queued scope ++ Directive.written scope lines := by
  induction lines generalizing reader with
  | nil => exact (List.append_nil _).symm
  | cons line rest ih =>
    have quietRest : ∀ other ∈ rest, ¬ IsTarget other := fun other member =>
      quiet other (List.mem_cons_of_mem line member)
    rw [List.foldl_cons, ih quietRest, pass_queued (quiet line List.mem_cons_self),
      List.append_assoc, ← Directive.written_append, List.singleton_append]

/-- Nothing waits, and so many lines were read. -/
def Idle (reader : LineReader) (read : Nat) : Prop :=
  reader.pending = 0 ∧ reader.read = read

/-- When nothing waits, the next call reads one stretch and yields its item. -/
theorem next_stretch {reader : LineReader} {read : Nat} (idle : reader.Idle read)
    (stretch : Stretch) (rest : List String) :
    ∃ after, reader.next (stretch.lines ++ rest) = (some stretch.item, after, rest) ∧
      after.Idle (read + stretch.lines.length) := by
  have empty := (pending_eq_zero_iff reader).mp idle.1
  have globals : (stretch.above.foldl pass reader).globals = stretch.globals := by
    have waits := foldl_pass_queued stretch.quiet reader .global
    rw [empty, List.nil_append] at waits
    exact waits
  have locals : (stretch.above.foldl pass reader).locals = stretch.locals := by
    have waits := foldl_pass_queued stretch.quiet reader .oneTarget
    rw [empty, List.nil_append] at waits
    exact waits
  have item : Item.ofPending (Text.trimmed stretch.target) (stretch.above.foldl pass reader).globals
      (stretch.above.foldl pass reader).locals = stretch.item := by
    rw [globals, locals]
    simp only [Item.ofPending, Stretch.item, Bool.and_eq_true, List.isEmpty_iff]
  refine ⟨{ stretch.above.foldl pass reader with
    read := (stretch.above.foldl pass reader).read + 1 }.clear, ?_, rfl, ?_⟩
  · rw [Stretch.lines, List.append_assoc, next_append stretch.quiet, List.singleton_append,
      next_of_target stretch.isTarget, item]
  · show (stretch.above.foldl pass reader).read + 1 = read + stretch.lines.length
    rw [foldl_pass_read, idle.2, Stretch.length_lines]
    omega

/-- Where no target is left, the next call reads all lines and forgets their directives. -/
theorem next_tail {reader : LineReader} {read : Nat} (atRead : reader.read = read)
    {tail : List String} (quiet : ∀ line ∈ tail, ¬ IsTarget line) :
    ∃ after, reader.next tail = (none, after, []) ∧ after.Idle (read + tail.length) := by
  have passed := next_append quiet reader []
  rw [List.append_nil] at passed
  refine ⟨_, passed, rfl, ?_⟩
  show (tail.foldl pass reader).read = _
  rw [foldl_pass_read, atRead]

/-- The answer of the `n`-th call of `next`, counted from zero. -/
def call (reader : LineReader) (lines : List String) :
    Nat → Option Item × LineReader × List String
  | 0 => reader.next lines
  | n + 1 =>
    let (_, after, rest) := reader.next lines
    after.call rest n

theorem call_succ {reader after : LineReader} {lines rest : List String} {answer : Option Item}
    (answered : reader.next lines = (answer, after, rest)) (n : Nat) :
    reader.call lines (n + 1) = after.call rest n := by
  rw [call, answered]

theorem call_stretch {stretches : List Stretch} {n : Nat} {stretch : Stretch}
    (inside : stretches[n]? = some stretch) (tail : List String) {reader : LineReader} {read : Nat}
    (idle : reader.Idle read) :
    ∃ after,
      reader.call (stretches.flatMap Stretch.lines ++ tail) n =
          (some stretch.item, after, (stretches.drop (n + 1)).flatMap Stretch.lines ++ tail) ∧
        after.Idle (read + ((stretches.take (n + 1)).flatMap Stretch.lines).length) := by
  induction n generalizing stretches reader read with
  | zero =>
    obtain ⟨more, cut⟩ := List.head?_eq_some_iff.mp (List.head?_eq_getElem?.trans inside)
    subst cut
    obtain ⟨after, answered, idleAfter⟩ :=
      next_stretch idle stretch (more.flatMap Stretch.lines ++ tail)
    refine ⟨after, ?_, ?_⟩
    · rw [List.flatMap_cons, List.append_assoc]
      exact answered
    · simpa only [List.take_succ_cons, List.take_zero, List.flatMap_cons, List.flatMap_nil,
        List.append_nil] using idleAfter
  | succ n ih =>
    cases stretches with
    | nil => contradiction
    | cons first more =>
      obtain ⟨middle, answered, idleMiddle⟩ :=
        next_stretch idle first (more.flatMap Stretch.lines ++ tail)
      obtain ⟨after, called, idleAfter⟩ := ih inside idleMiddle
      refine ⟨after, ?_, ?_⟩
      · rw [List.flatMap_cons, List.append_assoc, call_succ answered]
        exact called
      · rw [List.take_succ_cons, List.flatMap_cons, List.length_append, ← Nat.add_assoc]
        exact idleAfter

theorem call_tail {stretches : List Stretch} {n : Nat} (outside : stretches.length ≤ n)
    {tail : List String} (quietTail : ∀ line ∈ tail, ¬ IsTarget line) {reader : LineReader}
    {read : Nat} (idle : reader.Idle read) :
    ∃ after,
      reader.call (stretches.flatMap Stretch.lines ++ tail) n = (none, after, []) ∧
        after.Idle (read + (stretches.flatMap Stretch.lines ++ tail).length) := by
  induction n generalizing stretches tail reader read with
  | zero =>
    have none : stretches = [] := List.eq_nil_of_length_eq_zero (Nat.le_zero.mp outside)
    subst none
    exact next_tail idle.2 quietTail
  | succ n ih =>
    cases stretches with
    | nil =>
      obtain ⟨middle, answered, idleMiddle⟩ := next_tail idle.2 quietTail
      -- The calls that follow find no line at all.
      obtain ⟨after, called, idleAfter⟩ := @ih [] (Nat.zero_le n) [] (by simp) _ _ idleMiddle
      refine ⟨after, ?_, idleAfter⟩
      rw [List.flatMap_nil, List.nil_append, call_succ answered]
      exact called
    | cons first more =>
      obtain ⟨middle, answered, idleMiddle⟩ :=
        next_stretch idle first (more.flatMap Stretch.lines ++ tail)
      obtain ⟨after, called, idleAfter⟩ :=
        ih (Nat.le_of_succ_le_succ outside) quietTail idleMiddle
      refine ⟨after, ?_, ?_⟩
      · rw [List.flatMap_cons, List.append_assoc, call_succ answered]
        exact called
      · rw [List.flatMap_cons, List.append_assoc, List.length_append, ← Nat.add_assoc]
        exact idleAfter

theorem items_of_none {reader after : LineReader} {lines rest : List String}
    (answered : reader.next lines = (none, after, rest)) : reader.items lines = ([], after) := by
  rw [items]
  split
  · rename_i other _ found
    rw [answered] at found
    cases found
    rfl
  · rename_i found
    rw [answered] at found
    cases found

theorem items_of_some {reader after : LineReader} {lines rest : List String} {item : Item}
    (answered : reader.next lines = (some item, after, rest)) :
    reader.items lines = (item :: (after.items rest).1, (after.items rest).2) := by
  rw [items]
  split
  · rename_i found
    rw [answered] at found
    cases found
  · rename_i found
    rw [answered] at found
    cases found
    rfl

theorem items_of_cut (stretches : List Stretch) {tail : List String}
    (quietTail : ∀ line ∈ tail, ¬ IsTarget line) {reader : LineReader} {read : Nat}
    (idle : reader.Idle read) :
    (reader.items (stretches.flatMap Stretch.lines ++ tail)).1 = stretches.map Stretch.item := by
  induction stretches generalizing reader read with
  | nil =>
    obtain ⟨after, answered, _⟩ := next_tail idle.2 quietTail
    rw [List.flatMap_nil, List.nil_append, items_of_none answered]
    rfl
  | cons first more ih =>
    obtain ⟨after, answered, idleAfter⟩ :=
      next_stretch idle first (more.flatMap Stretch.lines ++ tail)
    rw [List.flatMap_cons, List.append_assoc, items_of_some answered, ih idleAfter]
    rfl

end LineReader

/-- Lines fall into stretches, one for each target, and a rest. The items are those of the
stretches; each call of `next` reads one stretch, a call after the last of them reads the rest, and
no directive waits after a call. -/
theorem Item.ofLines_by_stretch (lines : List String) :
    ∃ (stretches : List Stretch) (tail : List String),
      lines = stretches.flatMap Stretch.lines ++ tail ∧
      (∀ line ∈ tail, ¬ IsTarget line) ∧
      stretches.map Stretch.target = lines.filter IsTarget ∧
      Item.ofLines lines = stretches.map Stretch.item ∧
      ∀ n, match stretches[n]? with
        | some stretch => ∃ after,
            ({} : LineReader).call lines n = (some stretch.item, after,
              (stretches.drop (n + 1)).flatMap Stretch.lines ++ tail) ∧
            after.Idle ((stretches.take (n + 1)).flatMap Stretch.lines).length
        | none => ∃ after,
            ({} : LineReader).call lines n = (none, after, []) ∧ after.Idle lines.length := by
  obtain ⟨stretches, tail, cut, quietTail⟩ := Stretch.exists_cut lines
  have start : ({} : LineReader).Idle 0 := ⟨rfl, rfl⟩
  subst cut
  refine ⟨stretches, tail, rfl, quietTail, (Stretch.filter_cut quietTail).symm,
    LineReader.items_of_cut stretches quietTail start, ?_⟩
  intro n
  split
  · rename_i stretch inside
    have called := LineReader.call_stretch inside tail start
    rw [Nat.zero_add] at called
    exact called
  · rename_i outside
    have called :=
      LineReader.call_tail (List.getElem?_eq_none_iff.mp outside) quietTail start
    rw [Nat.zero_add] at called
    exact called

end BatchFetch
