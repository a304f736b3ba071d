import BatchFetch.Proofs.Batch.TargetLines
import BatchFetch.Proofs.Json.Printer

namespace BatchFetch

/-- A list that is made of two others, each of which keeps its order. -/
inductive Interleaves {α : Type} : List α → List α → List α → Prop where
  | nil : Interleaves [] [] []
  | left {x : α} {first second all : List α} (more : Interleaves first second all) :
      Interleaves (x :: first) second (x :: all)
  | right {x : α} {first second all : List α} (more : Interleaves first second all) :
      Interleaves first (x :: second) (x :: all)

/-- A directive of a scope that is read back as it was written, and whose name has no line feed. -/
structure Directive.IsWritable (scope : Scope) (directive : Directive) : Prop where
  scope_eq : directive.scope = scope
  readBack : parse directive.text.toList = .ok directive
  sectionLine : '\n' ∉ directive.sectionName.toList
  keyLine : '\n' ∉ directive.key.toList

instance (scope : Scope) (directive : Directive) : Decidable (directive.IsWritable scope) :=
  decidable_of_iff (directive.scope = scope ∧ Directive.parse directive.text.toList = .ok directive ∧
      '\n' ∉ directive.sectionName.toList ∧ '\n' ∉ directive.key.toList)
    ⟨fun ⟨scope_eq, readBack, sectionLine, keyLine⟩ => ⟨scope_eq, readBack, sectionLine, keyLine⟩,
      fun ⟨scope_eq, readBack, sectionLine, keyLine⟩ => ⟨scope_eq, readBack, sectionLine, keyLine⟩⟩

/-- An item with an order in which its directives are written. -/
structure Script where
  item : Item
  directives : List Directive
  listable : IsListable item.value
  globals : ∀ directive ∈ item.globals, directive.IsWritable .global
  locals : ∀ directive ∈ item.locals, directive.IsWritable .oneTarget
  order : Interleaves item.globals item.locals directives

/-- The lines that an item is written as. -/
def Script.lines (script : Script) : List String :=
  script.directives.map Directive.text ++ [script.item.value]

/-- White space that does not end a line. -/
def IsPadding (text : String) : Prop :=
  ∀ c ∈ text.toList, Text.isBlank c ∧ c ≠ '\n'

instance (text : String) : Decidable (IsPadding text) :=
  decidable_of_iff (text.toList.all fun c => Text.isBlank c && c != '\n') (by simp [IsPadding])

/-- The second list holds the lines of the first one, with white space around them, and blank lines
and comments anywhere between them. -/
inductive LaidOut : List String → List String → Prop where
  | nil : LaidOut [] []
  | blank {line : String} {written lines : List String} (padding : IsPadding line)
      (more : LaidOut written lines) : LaidOut written (line :: lines)
  | comment {before text : String} {written lines : List String} (padding : IsPadding before)
      (oneLine : '\n' ∉ text.toList) (more : LaidOut written lines) :
      LaidOut written ((before ++ "#" ++ text) :: lines)
  | line {before line after : String} {written lines : List String}
      (paddingBefore : IsPadding before) (paddingAfter : IsPadding after)
      (more : LaidOut written lines) : LaidOut (line :: written) ((before ++ line ++ after) :: lines)

/-- How a line is ended. -/
inductive LineEnd where
  | feed
  | returnFeed
  deriving DecidableEq

/-- What stands between a line and its line feed. -/
def LineEnd.lead : LineEnd → String
  | feed => ""
  | returnFeed => "\r"

/-- The text of lines that are ended one way or the other, and of a last one that is not ended. -/
def pageText (ended : List (String × LineEnd)) (last : String) : String :=
  String.join (ended.map fun (line, ending) => line ++ ending.lead ++ "\n") ++ last

/-- An item as it is read back: without directives it is plain. -/
def Item.canonical : Item → Item
  | enriched value [] [] => plain value
  | item => item

namespace Interleaves

variable {α : Type} {first second all : List α}

theorem mem (order : Interleaves first second all) {x : α} (member : x ∈ all) :
    x ∈ first ∨ x ∈ second := by
  induction order with
  | nil => cases member
  | left more ih =>
    rcases List.mem_cons.mp member with rfl | later
    · exact Or.inl List.mem_cons_self
    · exact (ih later).imp_left (List.mem_cons_of_mem _)
  | right more ih =>
    rcases List.mem_cons.mp member with rfl | later
    · exact Or.inr List.mem_cons_self
    · exact (ih later).imp_right (List.mem_cons_of_mem _)

/-- A property that tells the two lists apart gives each of them back. -/
theorem filter (order : Interleaves first second all) {p : α → Bool} (ofFirst : ∀ x ∈ first, p x)
    (ofSecond : ∀ x ∈ second, ¬p x) : all.filter p = first := by
  induction order with
  | nil => rfl
  | left more ih =>
    rw [List.forall_mem_cons] at ofFirst
    rw [List.filter_cons_of_pos ofFirst.1, ih ofFirst.2 ofSecond]
  | right more ih =>
    rw [List.forall_mem_cons] at ofSecond
    rw [List.filter_cons_of_neg ofSecond.1, ih ofFirst ofSecond.2]

theorem swap (order : Interleaves first second all) : Interleaves second first all := by
  induction order with
  | nil => exact .nil
  | left more ih => exact .right ih
  | right more ih => exact .left ih

end Interleaves

namespace Directive

theorem head?_text (d : Directive) : d.text.toList.head? = some '-' := by
  unfold text
  cases d.scope <;> simp [lead]

theorem fillsLine_text {d : Directive} (sectionLine : '\n' ∉ d.sectionName.toList)
    (keyLine : '\n' ∉ d.key.toList) : FillsLine d.text.toList := by
  have leadLine : '\n' ∉ (lead d.scope).toList := by cases d.scope <;> decide
  have nameLine : '\n' ∉
      (if d.sectionName = globalSection then d.key else d.sectionName ++ ":" ++ d.key).toList := by
    split
    · exact keyLine
    · simp [sectionLine, keyLine]
  unfold text
  rw [String.toList_append, String.toList_append, String.toList_append]
  refine .append ?_ (Json.fillsLine_render d.value)
  simp [leadLine, nameLine]

namespace IsWritable

variable {scope : Scope} {directive : Directive}

theorem fillsLine (writable : directive.IsWritable scope) : FillsLine directive.text.toList :=
  fillsLine_text writable.sectionLine writable.keyLine

theorem trim_text (writable : directive.IsWritable scope) :
    Text.trim directive.text.toList = directive.text.toList := by
  refine Text.trim_eq_self (fun c first => ?_) (fun c last => ?_)
  · rw [head?_text, Option.some.injEq] at first
    rw [← first]
    decide
  · obtain ⟨other, ending, visible⟩ := writable.fillsLine.ending
    rw [ending, Option.some.injEq] at last
    rw [← last]
    exact visible

theorem not_isTarget (writable : directive.IsWritable scope) : ¬IsTarget directive.text := by
  intro target
  have noDash := target.2.2
  rw [writable.trim_text] at noDash
  exact noDash directive.head?_text

theorem ofLine?_text (writable : directive.IsWritable scope) : ofLine? directive.text = some directive := by
  rw [ofLine?, writable.trim_text, if_pos directive.head?_text, writable.readBack]
  rfl

theorem malformed_text (writable : directive.IsWritable scope) :
    Malformed.ofLine? directive.text = none := by
  rw [Malformed.ofLine?, writable.trim_text, if_pos directive.head?_text, writable.readBack]

end IsWritable

end Directive

namespace Script

theorem exists_isWritable (script : Script) {directive : Directive}
    (member : directive ∈ script.directives) : ∃ scope, directive.IsWritable scope :=
  (script.order.mem member).elim (fun found => ⟨_, script.globals directive found⟩)
    (fun found => ⟨_, script.locals directive found⟩)

/-- The stretch of lines that a script is read as. -/
def stretch (script : Script) : Stretch where
  above := script.directives.map Directive.text
  target := script.item.value
  quiet line member := by
    obtain ⟨directive, inside, rfl⟩ := List.mem_map.mp member
    obtain ⟨_, writable⟩ := script.exists_isWritable inside
    exact writable.not_isTarget
  isTarget := script.listable.isTarget

theorem written_eq (script : Script) (scope : Scope) :
    Directive.written scope script.stretch.above =
      script.directives.filter fun directive => directive.scope = scope := by
  have read : script.stretch.above.filterMap Directive.ofLine? = script.directives := by
    rw [stretch, List.filterMap_map]
    refine (List.filterMap_congr fun directive member => ?_).trans List.filterMap_some
    obtain ⟨_, writable⟩ := script.exists_isWritable member
    exact writable.ofLine?_text
  rw [Directive.written, read]

theorem stretch_globals (script : Script) : script.stretch.globals = script.item.globals := by
  refine (script.written_eq .global).trans (script.order.filter (fun directive member => ?_)
    (fun directive member => ?_))
  · simp [(script.globals directive member).scope_eq]
  · simp [(script.locals directive member).scope_eq]

theorem stretch_locals (script : Script) : script.stretch.locals = script.item.locals := by
  refine (script.written_eq .oneTarget).trans (script.order.swap.filter (fun directive member => ?_)
    (fun directive member => ?_))
  · simp [(script.locals directive member).scope_eq]
  · simp [(script.globals directive member).scope_eq]

theorem stretch_item (script : Script) : script.stretch.item = script.item.canonical := by
  have value : Text.trimmed script.stretch.target = script.item.value := script.listable.trimmed
  rw [Stretch.item, script.stretch_globals, script.stretch_locals, value]
  rcases script.item with target | ⟨target, _ | ⟨first, globals⟩, _ | ⟨second, locals⟩⟩ <;> rfl

/-- What is written without anything around it is read back. -/
theorem ofLines_lines (scripts : List Script) :
    Item.ofLines (scripts.flatMap lines) = scripts.map (·.item.canonical) := by
  have start : ({} : LineReader).Idle 0 := ⟨rfl, rfl⟩
  have quietTail : ∀ line ∈ ([] : List String), ¬IsTarget line := fun line member => by cases member
  have cut := LineReader.items_of_cut (scripts.map stretch) quietTail start
  rw [List.append_nil, List.flatMap_map, List.map_map] at cut
  exact cut.trans (List.map_congr_left fun script _ => script.stretch_item)

end Script

/-- Neither a blank line nor a comment. -/
def IsSignificant (line : String) : Prop :=
  Text.trim line.toList ≠ [] ∧ (Text.trim line.toList).head? ≠ some '#'

instance (line : String) : Decidable (IsSignificant line) :=
  inferInstanceAs (Decidable (_ ∧ _))

/-- A line that counts as it stands, without a warning. -/
structure IsWritten (line : String) : Prop where
  oneLine : '\n' ∉ line.toList
  significant : IsSignificant line
  trimmed : Text.trimmed line = line
  wellFormed : Malformed.ofLine? line = none

/-- The lines that count, trimmed. -/
def significantLines (lines : List String) : List String :=
  (lines.filter IsSignificant).map Text.trimmed

theorem Text.trim_trimmed (line : String) :
    Text.trim (Text.trimmed line).toList = Text.trim line.toList := by
  rw [trimmed, String.toList_ofList, trim_trim]

theorem IsTarget.isSignificant {line : String} (target : IsTarget line) : IsSignificant line :=
  ⟨target.1, target.2.1⟩

theorem isTarget_trimmed {line : String} : IsTarget (Text.trimmed line) ↔ IsTarget line := by
  unfold IsTarget
  rw [Text.trim_trimmed]

theorem significantLines_of_not {line : String} (not : ¬IsSignificant line) (rest : List String) :
    significantLines (line :: rest) = significantLines rest := by
  rw [significantLines, List.filter_cons_of_neg (by simpa using not), significantLines]

theorem significantLines_of {line : String} (significant : IsSignificant line) (rest : List String) :
    significantLines (line :: rest) = Text.trimmed line :: significantLines rest := by
  rw [significantLines, List.filter_cons_of_pos (by simpa using significant), List.map_cons,
    significantLines]

/-- Only what is left by trimming matters. -/
theorem significantLines_congr {line other : String} {rest others : List String}
    (same : Text.trim line.toList = Text.trim other.toList)
    (later : significantLines rest = significantLines others) :
    significantLines (line :: rest) = significantLines (other :: others) := by
  have text : Text.trimmed line = Text.trimmed other := congrArg String.ofList same
  by_cases significant : IsSignificant line
  · have too : IsSignificant other := by rwa [IsSignificant, ← same]
    rw [significantLines_of significant, significantLines_of too, text, later]
  · have neither : ¬IsSignificant other := by rwa [IsSignificant, ← same]
    rw [significantLines_of_not significant, significantLines_of_not neither, later]

theorem Directive.written_trimmed (scope : Scope) (line : String) :
    written scope [Text.trimmed line] = written scope [line] := by
  rw [written_singleton, written_singleton, ofLine?, ofLine?, Text.trim_trimmed]

theorem isSignificant_of_dash {line : String} (dash : (Text.trim line.toList).head? = some '-') :
    IsSignificant line := by
  obtain ⟨rest, trimmed⟩ := List.head?_eq_some_iff.mp dash
  rw [IsSignificant, trimmed]
  exact ⟨List.cons_ne_nil _ _, by simp⟩

/-- Only what is left by trimming tells the items. -/
theorem LineReader.items_trimmed {reader other : LineReader}
    (same : ∀ scope, reader.queued scope = other.queued scope) (lines : List String) :
    (reader.items lines).1 = (other.items (lines.map Text.trimmed)).1 := by
  induction lines generalizing reader other with
  | nil => rw [List.map_nil, items_nil, items_nil]
  | cons line rest ih =>
    rw [List.map_cons]
    by_cases target : IsTarget line
    · rw [items_of_target target, items_of_target (isTarget_trimmed.mpr target),
        Text.trimmed_trimmed, same, same]
      refine congrArg (List.cons _) (ih fun scope => ?_)
      rw [queued_clear, queued_clear]
    · have quiet : ¬IsTarget (Text.trimmed line) := mt isTarget_trimmed.mp target
      rw [items_of_quiet target, items_of_quiet quiet]
      refine ih fun scope => ?_
      rw [pass_queued target, pass_queued quiet, Directive.written_trimmed, same]

/-- The items are told by the lines that count. -/
theorem LineReader.items_significantLines {reader other : LineReader}
    (same : ∀ scope, reader.queued scope = other.queued scope) (lines : List String) :
    (reader.items lines).1 = (other.items (significantLines lines)).1 := by
  refine (items_filter (fun line dropped => ?_) (fun _ => rfl) lines).trans (items_trimmed same _)
  have not : ¬IsSignificant line := of_decide_eq_false dropped
  refine ⟨mt IsTarget.isSignificant not, if_neg fun dash => not (isSignificant_of_dash dash)⟩

theorem Warning.ofLines_of_significantLines {lines : List String}
    (fine : ∀ line ∈ significantLines lines, Malformed.ofLine? line = none) : ofLines lines = [] := by
  refine ofLines_eq_nil fun line member => ?_
  by_cases dash : (Text.trim line.toList).head? = some '-'
  · have counts : Text.trimmed line ∈ significantLines lines :=
      List.mem_map_of_mem (List.mem_filter.mpr ⟨member, by simpa using isSignificant_of_dash dash⟩)
    have none := fine _ counts
    rwa [Malformed.ofLine?, Text.trim_trimmed] at none
  · exact if_neg dash

theorem IsPadding.oneLine {text : String} (padding : IsPadding text) : '\n' ∉ text.toList :=
  fun member => (padding _ member).2 rfl

theorem IsPadding.blank {text : String} (padding : IsPadding text) :
    ∀ c ∈ text.toList, Text.isBlank c :=
  fun c member => (padding c member).1

namespace LaidOut

variable {written lines : List String}

theorem oneLine (laid : LaidOut written lines) (free : ∀ line ∈ written, '\n' ∉ line.toList) :
    ∀ line ∈ lines, '\n' ∉ line.toList := by
  induction laid with
  | nil => exact free
  | blank padding more ih => exact List.forall_mem_cons.mpr ⟨padding.oneLine, ih free⟩
  | comment padding oneLine more ih =>
    refine List.forall_mem_cons.mpr ⟨?_, ih free⟩
    simp [padding.oneLine, oneLine]
  | line before after more ih =>
    rw [List.forall_mem_cons] at free
    refine List.forall_mem_cons.mpr ⟨?_, ih free.2⟩
    simp [before.oneLine, after.oneLine, free.1]

/-- What is added to the written lines does not count. -/
theorem significantLines_eq (laid : LaidOut written lines)
    (counts : ∀ line ∈ written, IsWritten line) :
    significantLines lines = written := by
  induction laid with
  | nil => rfl
  | blank padding more ih =>
    rw [significantLines_of_not, ih counts]
    exact fun significant => significant.1 (Text.trim_eq_nil padding.blank)
  | @comment before text _ _ padding oneLine more ih =>
    rw [significantLines_of_not, ih counts]
    have hash := Text.head?_trim padding.blank (show Text.isBlank '#' = false by decide) text.toList
    have chars : (before ++ "#" ++ text).toList = before.toList ++ '#' :: text.toList := by simp
    rw [← chars] at hash
    exact fun significant => significant.2 hash
  | @line before line after _ _ paddingBefore paddingAfter more ih =>
    rw [List.forall_mem_cons] at counts
    obtain ⟨⟨_, significant, trimmed, _⟩, later⟩ := counts
    have same : Text.trim (before ++ line ++ after).toList = Text.trim line.toList := by
      rw [String.toList_append, String.toList_append]
      exact Text.trim_padded line.toList paddingBefore.blank paddingAfter.blank
    have text : Text.trimmed (before ++ line ++ after) = line :=
      (congrArg String.ofList same).trans trimmed
    rw [significantLines_of (by rwa [IsSignificant, same]), text, ih later]

end LaidOut

theorem LineEnd.lead_blank (ending : LineEnd) : ∀ c ∈ ending.lead.toList, Text.isBlank c := by
  cases ending with
  | feed => exact fun c member => by cases member
  | returnFeed => exact List.forall_mem_singleton.mpr (by decide)

theorem pageText_cons (line : String) (ending : LineEnd) (rest : List (String × LineEnd))
    (last : String) :
    Text.Utf8.encode (pageText ((line, ending) :: rest) last).toList =
      Text.Utf8.encode (line.toList ++ ending.lead.toList) ++
        10 :: Text.Utf8.encode (pageText rest last).toList := by
  have feed : Text.Utf8.encode ['\n'] = [10] := rfl
  rw [← List.singleton_append (x := (10 : UInt8)), ← feed]
  simp [pageText, Text.Utf8.encode, String.join_cons]

namespace ByteStream

theorem readable_last {last : String} (oneLine : '\n' ∉ last.toList) :
    significantLines (readable ⟨Text.Utf8.encode last.toList, none⟩) = significantLines [last] ∧
      fault? ⟨Text.Utf8.encode last.toList, none⟩ = none := by
  have cut : (Text.Utf8.encode last.toList).dropWhile (!isLineFeed ·) = [] :=
    List.dropWhile_eq_nil_iff.mpr (free_of_oneLine oneLine)
  have lines := rawLines_last none cut
  by_cases empty : Text.Utf8.encode last.toList = []
  · rw [if_neg fun both => both.2 empty] at lines
    obtain ⟨readable, fault⟩ := readable_of_end lines
    have nothing : last.toList = [] := by
      have decoded := Text.Utf8.decode?_eq_some_iff.mpr (Eq.refl (Text.Utf8.encode last.toList))
      rw [empty, Text.Utf8.decode?_eq_some_iff.mpr (show [] = Text.Utf8.encode [] from rfl)] at decoded
      exact (Option.some.inj decoded).symm
    have blank : ¬IsSignificant last := fun significant => significant.1 (by rw [nothing]; rfl)
    rw [readable, fault, significantLines_of_not blank]
    exact ⟨rfl, rfl⟩
  · rw [if_pos ⟨rfl, empty⟩] at lines
    have nothingLeft : rawLines ⟨[], none⟩ = [] := by simp [rawLines]
    rw [← nothingLeft] at lines
    obtain ⟨first, same⟩ := readable_of_good lines rfl (Text.Utf8.decode?_eq_some_iff.mpr rfl)
    obtain ⟨readable, fault⟩ := readable_of_end nothingLeft
    rw [first, same, readable, fault, String.ofList_toList]
    exact ⟨rfl, rfl⟩

/-- The ends of lines do not matter. -/
theorem readable_pageText (ended : List (String × LineEnd)) {last : String}
    (oneLine : ∀ line ∈ ended.map Prod.fst ++ [last], '\n' ∉ line.toList) :
    significantLines (readable ⟨Text.Utf8.encode (pageText ended last).toList, none⟩) =
        significantLines (ended.map Prod.fst ++ [last]) ∧
      fault? ⟨Text.Utf8.encode (pageText ended last).toList, none⟩ = none := by
  induction ended with
  | nil =>
    have text : pageText [] last = last := by simp [pageText]
    rw [text]
    exact readable_last (oneLine last List.mem_cons_self)
  | cons row rest ih =>
    obtain ⟨line, ending⟩ := row
    rw [List.map_cons, List.cons_append, List.forall_mem_cons] at oneLine
    obtain ⟨readable, fault⟩ := ih oneLine.2
    have free : '\n' ∉ line.toList ++ ending.lead.toList := by
      have leadFree : '\n' ∉ ending.lead.toList := by cases ending <;> decide
      simp [oneLine.1, leadFree]
    obtain ⟨kept, bytes, trimmed⟩ := dropReturn_encode (line.toList ++ ending.lead.toList)
    have lines := rawLines_encode free (Text.Utf8.encode (pageText rest last).toList) none
    obtain ⟨first, same⟩ :=
      readable_of_good lines rfl (Text.Utf8.decode?_eq_some_iff.mpr bytes)
    have keeps : Text.trim (String.ofList kept).toList = Text.trim line.toList := by
      rw [String.toList_ofList, trimmed, Text.trim_append_blank _ ending.lead_blank]
    rw [pageText_cons, first, same, fault]
    exact ⟨significantLines_congr keeps readable, rfl⟩

end ByteStream

namespace Script

theorem isWritten (script : Script) : ∀ line ∈ script.lines, IsWritten line := by
  intro line member
  rcases List.mem_append.mp member with inside | target
  · obtain ⟨directive, here, rfl⟩ := List.mem_map.mp inside
    obtain ⟨_, writable⟩ := script.exists_isWritable here
    have dash : (Text.trim directive.text.toList).head? = some '-' := by
      rw [writable.trim_text, directive.head?_text]
    have trimmed : Text.trimmed directive.text = directive.text := by
      rw [Text.trimmed, writable.trim_text, String.ofList_toList]
    exact ⟨writable.fillsLine.oneLine, isSignificant_of_dash dash, trimmed, writable.malformed_text⟩
  · obtain rfl := List.mem_singleton.mp target
    have listable := script.listable
    exact ⟨listable.oneLine, listable.isTarget.isSignificant, listable.trimmed,
      Malformed.ofLine?_of_target listable.isTarget⟩

theorem isWritten_of_mem {scripts : List Script} :
    ∀ line ∈ scripts.flatMap lines, IsWritten line := by
  intro line member
  obtain ⟨script, _, inside⟩ := List.mem_flatMap.mp member
  exact script.isWritten line inside

/-- Lines are read as scripts if those that count are the lines of the scripts. -/
theorem ofLines_of_significantLines (scripts : List Script) {all : List String}
    (same : significantLines all = scripts.flatMap lines) :
    Item.ofLines all = scripts.map (·.item.canonical) ∧ Warning.ofLines all = [] := by
  constructor
  · rw [Item.ofLines, LineReader.items_significantLines (fun _ => rfl), same]
    exact ofLines_lines scripts
  · refine Warning.ofLines_of_significantLines fun line member => ?_
    rw [same] at member
    exact (isWritten_of_mem line member).wellFormed

/-- A batch that is written out and read back is the same batch, item by item and in order, without
a warning: the directives of an item may be written in any order that keeps the global and the local
ones in theirs, blank lines, comments and white space may stand around the lines, and each line may
be ended in one of two ways, the last one also not at all. Only an item without directives comes
back as a plain one. -/
theorem readInto_laidOut (scripts : List Script) {ended : List (String × LineEnd)} {last : String}
    (laid : LaidOut (scripts.flatMap lines) (ended.map Prod.fst ++ [last])) (origin : String)
    (items : List Item) :
    (ByteStream.readInto ⟨Text.Utf8.encode (pageText ended last).toList, none⟩ origin items).1 =
      ⟨.ok scripts.length, items ++ scripts.map (·.item.canonical), []⟩ := by
  have oneLine := laid.oneLine fun line member => (isWritten_of_mem line member).oneLine
  obtain ⟨readable, fault⟩ := ByteStream.readable_pageText ended oneLine
  rw [laid.significantLines_eq isWritten_of_mem] at readable
  obtain ⟨read, warnings⟩ := ofLines_of_significantLines scripts readable
  rw [ByteStream.readInto_eq, fault, read, warnings, List.length_map]
  rfl

theorem readInto_laidOut_padded :
    let x : Directive := ⟨⟨globalSection, "x", .num (.int 1)⟩, .global⟩
    let progress : Directive := ⟨⟨"output", "progress", .str "a\nb"⟩, .global⟩
    let skip : Directive := ⟨⟨"extractor.direct", "skip", .bool true⟩, .oneTarget⟩
    let text := "\r\n\u2003# all\n\t-G x=1 \r\n-extractor.direct:skip=true\u3000\n" ++
      "-G output:progress=\"a\\nb\"\n \u00a0http://h/a\r\n\u2028\nb#c\n  d e\r"
    let written := [x.text, skip.text, progress.text, "http://h/a", "b#c", "d e"]
    let rows : List (String × LineEnd) := [("", .returnFeed), ("\u2003" ++ "#" ++ " all", .feed),
      ("\t" ++ x.text ++ " ", .returnFeed), ("" ++ skip.text ++ "\u3000", .feed),
      ("" ++ progress.text ++ "", .feed), (" \u00a0" ++ "http://h/a" ++ "", .returnFeed),
      ("\u2028", .feed), ("" ++ "b#c" ++ "", .feed)]
    pageText rows ("  " ++ "d e" ++ "\r") = text ∧
      LaidOut written (rows.map Prod.fst ++ ["  " ++ "d e" ++ "\r"]) ∧
      (ByteStream.readInto ⟨Text.Utf8.encode text.toList, none⟩ "list" [.plain "z"]).1 =
        ⟨.ok 3, [.plain "z", .enriched "http://h/a" [x, progress] [skip], .plain "b#c", .plain "d e"],
          []⟩ := by
  intro x progress skip text written rows
  have same : pageText rows ("  " ++ "d e" ++ "\r") = text := by decide +kernel
  have laid : LaidOut written (rows.map Prod.fst ++ ["  " ++ "d e" ++ "\r"]) :=
    .blank (by decide) <| .comment (by decide) (by decide) <| .line (by decide) (by decide) <|
      .line (by decide) (by decide) <| .line (by decide) (by decide) <|
      .line (by decide) (by decide) <| .blank (by decide) <| .line (by decide) (by decide) <|
      .line (by decide) (by decide) .nil
  let several : Script := {
    item := .enriched "http://h/a" [x, progress] [skip]
    directives := [x, skip, progress]
    listable := ⟨by decide, by decide, by decide⟩
    globals := by decide +kernel
    locals := by decide +kernel
    order := .left (.right (.left .nil)) }
  let bare : Script := {
    item := .enriched "b#c" [] []
    directives := []
    listable := ⟨by decide, by decide, by decide⟩
    globals := by decide
    locals := by decide
    order := .nil }
  let plain : Script := {
    item := .plain "d e"
    directives := []
    listable := ⟨by decide, by decide, by decide⟩
    globals := by decide
    locals := by decide
    order := .nil }
  have read := readInto_laidOut [several, bare, plain] laid "list" [.plain "z"]
  rw [same] at read
  exact ⟨same, laid, read⟩

end Script

end BatchFetch
