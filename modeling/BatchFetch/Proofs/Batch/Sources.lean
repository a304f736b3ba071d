import BatchFetch.Batch.Source
import BatchFetch.Proofs.Batch.Lines
import BatchFetch.Proofs.Text.Utf8

namespace BatchFetch

/-- What is wrong with a line that starts like a directive and is none. -/
def Malformed.ofLine? (line : String) : Option Malformed :=
  if (Text.trim line.toList).head? = some '-' then
    match Directive.parse (Text.trim line.toList) with
    | .ok _ => none
    | .error problem => some problem
  else none

/-- The warnings about lines, which are counted on from a number. -/
def Warning.ofLinesFrom (number : Nat) (lines : List String) : List Warning :=
  (lines.zipIdx number).filterMap fun (line, number) =>
    (Malformed.ofLine? line).map fun problem => ⟨number, problem⟩

/-- The warnings about the lines of a source. Its first line has the number one. -/
def Warning.ofLines (lines : List String) : List Warning :=
  ofLinesFrom 1 lines

theorem Warning.ofLinesFrom_cons (number : Nat) (line : String) (rest : List String) :
    ofLinesFrom number (line :: rest) =
      ((Malformed.ofLine? line).map fun problem => ⟨number, problem⟩).toList ++
        ofLinesFrom (number + 1) rest := by
  cases problem : Malformed.ofLine? line <;>
    simp [ofLinesFrom, List.zipIdx_cons, problem]

theorem Warning.ofLinesFrom_append (number : Nat) (first second : List String) :
    ofLinesFrom number (first ++ second) =
      ofLinesFrom number first ++ ofLinesFrom (number + first.length) second := by
  rw [ofLinesFrom, List.zipIdx_append, List.filterMap_append]
  rfl

/-- A warning about a line of a source, as it is logged. -/
def Warning.event (origin : String) (warning : Warning) : Event :=
  .warn s!"{origin}: {warning.message}"

theorem Warning.ofLines_eq_nil {lines : List String}
    (fine : ∀ line ∈ lines, Malformed.ofLine? line = none) : ofLines lines = [] := by
  unfold ofLines ofLinesFrom
  rw [List.filterMap_eq_nil_iff]
  rintro ⟨line, number⟩ member
  simp only [fine line (List.fst_mem_of_mem_zipIdx member), Option.map_none]

theorem Malformed.ofLine?_of_target {line : String} (target : IsTarget line) :
    ofLine? line = none :=
  if_neg target.2.2

theorem LineKind.head?_of_directive {line : String} {text : List Char}
    (directive : LineKind.of line = .directive text) :
    (Text.trim line.toList).head? = some '-' := by
  unfold of at directive
  split at directive
  · cases directive
  · cases directive
  · rename_i trimmed
    rw [trimmed]
    rfl
  · cases directive

theorem Malformed.ofLine?_of_ignored {line : String} (ignored : LineKind.of line = .ignored) :
    ofLine? line = none := by
  refine if_neg fun dash => ?_
  obtain ⟨rest, trimmed⟩ := List.head?_eq_some_iff.mp dash
  unfold LineKind.of at ignored
  simp [trimmed] at ignored

namespace LineReader

/-- A reader has gone on by lines: it counts them, keeps the warnings about them and logs each of
them as it is found. -/
structure Passes (reader : LineReader) (lines : List String) (after : LineReader) : Prop where
  origin : after.origin = reader.origin
  read : after.read = reader.read + lines.length
  warnings : after.warnings = reader.warnings ++ Warning.ofLinesFrom (reader.read + 1) lines
  events : after.events = reader.events ++
    (Warning.ofLinesFrom (reader.read + 1) lines).map (Warning.event reader.origin)

theorem Passes.trans {reader middle after : LineReader} {first second : List String}
    (passes : reader.Passes first middle) (further : middle.Passes second after) :
    reader.Passes (first ++ second) after where
  origin := further.origin.trans passes.origin
  read := by rw [further.read, passes.read, List.length_append, Nat.add_assoc]
  warnings := by
    rw [further.warnings, passes.warnings, passes.read, List.append_assoc,
      Warning.ofLinesFrom_append, Nat.add_right_comm]
  events := by
    rw [further.events, passes.events, passes.read, passes.origin, List.append_assoc,
      Warning.ofLinesFrom_append, List.map_append, Nat.add_right_comm]

/-- The end of the lines and a target change nothing but what waits. -/
theorem passes_clear (reader : LineReader) : reader.Passes [] reader.clear :=
  ⟨rfl, rfl, (List.append_nil _).symm, (List.append_nil _).symm⟩

theorem passes_silent {line : String} (silent : Malformed.ofLine? line = none)
    {reader after : LineReader} (origin : after.origin = reader.origin)
    (read : after.read = reader.read + 1) (warnings : after.warnings = reader.warnings)
    (events : after.events = reader.events) : reader.Passes [line] after := by
  have nothing : Warning.ofLinesFrom (reader.read + 1) [line] = [] := by
    rw [Warning.ofLinesFrom_cons, silent]
    rfl
  refine ⟨origin, read, ?_, ?_⟩
  · rw [nothing, warnings, List.append_nil]
  · rw [nothing, events, List.map_nil, List.append_nil]

theorem passes_quiet {line : String} (quiet : ¬IsTarget line) (reader : LineReader) :
    reader.Passes [line] (reader.pass line) := by
  unfold pass
  rcases LineKind.of_quiet quiet with ⟨ignored, _⟩ | ⟨directive, _⟩
  · rw [ignored]
    exact passes_silent (Malformed.ofLine?_of_ignored ignored) rfl rfl rfl rfl
  have dash := LineKind.head?_of_directive directive
  rw [directive]
  simp only [queue]
  cases parsed : Directive.parse (Text.trim line.toList) with
  | ok directive =>
    have silent : Malformed.ofLine? line = none := by rw [Malformed.ofLine?, if_pos dash, parsed]
    simp only
    split <;> exact passes_silent silent rfl rfl rfl rfl
  | error problem =>
    have wrong : Warning.ofLinesFrom (reader.read + 1) [line] = [⟨reader.read + 1, problem⟩] := by
      rw [Warning.ofLinesFrom_cons, Malformed.ofLine?, if_pos dash, parsed]
      rfl
    exact ⟨rfl, rfl, congrArg _ wrong.symm, by rw [wrong]; rfl⟩

theorem passes_target {line : String} (target : IsTarget line) (reader : LineReader) :
    reader.Passes [line] { reader with read := reader.read + 1 }.clear :=
  passes_silent (Malformed.ofLine?_of_target target) rfl rfl rfl rfl

theorem items_of_quiet {line : String} (quiet : ¬IsTarget line) (reader : LineReader)
    (rest : List String) : reader.items (line :: rest) = (reader.pass line).items rest := by
  have same := next_of_quiet quiet reader rest
  rcases answered : (reader.pass line).next rest with ⟨_ | item, after, left⟩
  · rw [items_of_none (same.trans answered), items_of_none answered]
  · rw [items_of_some (same.trans answered), items_of_some answered]

theorem items_nil (reader : LineReader) : reader.items [] = ([], reader.clear) :=
  items_of_none (show reader.next [] = (none, reader.clear, []) from rfl)

theorem items_of_target {line : String} (target : IsTarget line) (reader : LineReader)
    (rest : List String) :
    (reader.items (line :: rest)).1 =
      .ofPending (Text.trimmed line) (reader.queued .global) (reader.queued .oneTarget) ::
        ({ reader with read := reader.read + 1 }.clear.items rest).1 := by
  rw [items_of_some (next_of_target target reader rest)]
  rfl

theorem queued_clear (reader : LineReader) (scope : Scope) : reader.clear.queued scope = [] := by
  cases scope <;> rfl

/-- Items do not depend on lines that are no targets and say nothing. -/
theorem items_filter {keep : String → Bool}
    (silent : ∀ line, keep line = false → ¬IsTarget line ∧ Directive.ofLine? line = none)
    {reader other : LineReader} (same : ∀ scope, reader.queued scope = other.queued scope)
    (lines : List String) : (reader.items lines).1 = (other.items (lines.filter keep)).1 := by
  -- The readers count different lines, so only what they have queued is kept the same.
  induction lines generalizing reader other with
  | nil => rw [List.filter_nil, items_nil, items_nil]
  | cons line rest ih =>
    cases kept : keep line with
    | false =>
      obtain ⟨quiet, nothing⟩ := silent line kept
      rw [List.filter_cons_of_neg (Bool.eq_false_iff.mp kept), items_of_quiet quiet]
      refine ih fun scope => ?_
      rw [pass_queued quiet, Directive.written_singleton, nothing, Option.toList_none,
        List.filter_nil, List.append_nil, same]
    | true =>
      rw [List.filter_cons_of_pos kept]
      by_cases target : IsTarget line
      · rw [items_of_target target, items_of_target target, same, same]
        refine congrArg (List.cons _) (ih fun scope => ?_)
        rw [queued_clear, queued_clear]
      · rw [items_of_quiet target, items_of_quiet target]
        refine ih fun scope => ?_
        rw [pass_queued target, pass_queued target, same]

/-- The name of a source is of no account for its items. -/
theorem items_origin (origin : String) (lines : List String) :
    (({ origin } : LineReader).items lines).1 = Item.ofLines lines := by
  have every : lines.filter (fun _ => true) = lines :=
    List.filter_eq_self.mpr fun _ _ => rfl
  have same := @items_filter (fun _ => true) (fun _ dropped => nomatch dropped)
    { origin } {} (fun _ => rfl) lines
  rw [every] at same
  exact same

/-- At the end the reader has gone on by all lines. -/
theorem items_passes (reader : LineReader) (lines : List String) :
    reader.Passes lines (reader.items lines).2 := by
  induction lines generalizing reader with
  | nil =>
    rw [items_nil]
    exact reader.passes_clear
  | cons line rest ih =>
    by_cases target : IsTarget line
    · rw [items_of_some (next_of_target target reader rest)]
      exact (passes_target target reader).trans (ih _)
    · rw [items_of_quiet target]
      exact (passes_quiet target reader).trans (ih _)

/-- Items are appended to what is there. -/
theorem appendItems_eq (reader : LineReader) (items : List Item) (lines : List String) :
    reader.appendItems items lines =
      (items ++ (reader.items lines).1, (reader.items lines).2) := by
  fun_induction appendItems reader items lines with
  | case1 reader items lines after rest answered =>
    rw [items_of_none answered, List.append_nil]
  | case2 reader items lines item after rest answered ih =>
    rw [ih, items_of_some answered, List.append_assoc, List.singleton_append]

end LineReader

namespace ByteStream

/-- The lines of a stream: what stands between line feeds. What follows the last line feed is a line
unless nothing does or a failure cuts it off. -/
def rawLines (stream : ByteStream) : List Bytes :=
  let pieces := stream.bytes.splitOnP isLineFeed
  pieces.dropLast.map dropReturn ++
    pieces.getLast?.toList.filter fun last => stream.failure.isNone && !last.isEmpty

/-- The texts of the lines before the first that is not well-formed. -/
def readable (stream : ByteStream) : List String :=
  (stream.rawLines.takeWhile (Text.Utf8.IsWellFormed ·)).filterMap fun line =>
    (Text.Utf8.decode? line).map String.ofList

/-- The failure that ends the reading of a stream. -/
def fault? (stream : ByteStream) : Option IoError :=
  if ∀ line ∈ stream.rawLines, Text.Utf8.IsWellFormed line then stream.failure
  else some .notUtf8

theorem splitOnP_of_line {bytes rest : Bytes} {feed : UInt8}
    (cut : bytes.dropWhile (!isLineFeed ·) = feed :: rest) :
    bytes.splitOnP isLineFeed =
      bytes.takeWhile (!isLineFeed ·) :: rest.splitOnP isLineFeed := by
  have parts := bytes.takeWhile_append_dropWhile (p := (!isLineFeed ·))
  have free : ∀ b ∈ bytes.takeWhile (!isLineFeed ·), isLineFeed b = false := by
    intro b member
    simpa using List.all_eq_true.mp List.all_takeWhile b member
  have feeds : isLineFeed feed = true := by
    simpa [cut] using List.head_dropWhile_not (!isLineFeed ·) (l := bytes) (by simp [cut])
  rw [cut] at parts
  rw [← List.splitOnP_append_cons_of_forall_mem free feed feeds, parts]

theorem splitOnP_of_last {bytes : Bytes} (cut : bytes.dropWhile (!isLineFeed ·) = []) :
    bytes.splitOnP isLineFeed = [bytes] ∧ bytes.takeWhile (!isLineFeed ·) = bytes := by
  have parts := bytes.takeWhile_append_dropWhile (p := (!isLineFeed ·))
  rw [cut, List.append_nil] at parts
  refine ⟨List.splitOnP_eq_singleton fun b member => ?_, parts⟩
  rw [← parts] at member
  simpa using List.all_eq_true.mp List.all_takeWhile b member

theorem rawLines_cons {bytes rest : Bytes} {feed : UInt8} (failure : Option IoError)
    (cut : bytes.dropWhile (!isLineFeed ·) = feed :: rest) :
    rawLines ⟨bytes, failure⟩ =
      dropReturn (bytes.takeWhile (!isLineFeed ·)) :: rawLines ⟨rest, failure⟩ := by
  have some := List.splitOnP_ne_nil isLineFeed rest
  simp only [rawLines, splitOnP_of_line cut, List.dropLast_cons_of_ne_nil some,
    List.getLast?_cons_of_ne_nil some, List.map_cons, List.cons_append]

theorem rawLines_last {bytes : Bytes} (failure : Option IoError)
    (cut : bytes.dropWhile (!isLineFeed ·) = []) :
    rawLines ⟨bytes, failure⟩ = if failure = none ∧ bytes ≠ [] then [bytes] else [] := by
  simp only [rawLines, (splitOnP_of_last cut).1, List.dropLast_singleton, List.map_nil,
    List.nil_append, List.getLast?_singleton, Option.toList_some]
  cases failure <;> cases bytes <;> rfl

theorem nextLine_cons {bytes rest : Bytes} {feed : UInt8} (failure : Option IoError)
    (cut : bytes.dropWhile (!isLineFeed ·) = feed :: rest) :
    nextLine ⟨bytes, failure⟩ =
      (some (.ok (dropReturn (bytes.takeWhile (!isLineFeed ·)))), ⟨rest, failure⟩) := by
  simp only [nextLine, cut]

theorem nextLine_last {bytes : Bytes} (failure : Option IoError)
    (cut : bytes.dropWhile (!isLineFeed ·) = []) :
    nextLine ⟨bytes, failure⟩ =
      ((failure.map .error).or (if bytes = [] then none else some (.ok bytes)), ⟨[], failure⟩) := by
  simp only [nextLine, cut, (splitOnP_of_last cut).2, List.isEmpty_iff]
  cases failure <;> rfl

/-- What is read as a line is the first of the lines, and the others are left. -/
theorem rawLines_of_line {stream left : ByteStream} {line : Bytes}
    (read : stream.nextLine = (some (.ok line), left)) :
    stream.rawLines = line :: left.rawLines ∧ left.failure = stream.failure := by
  obtain ⟨bytes, failure⟩ := stream
  cases cut : bytes.dropWhile (!isLineFeed ·) with
  | cons feed rest =>
    rw [nextLine_cons failure cut] at read
    cases read
    exact ⟨rawLines_cons failure cut, rfl⟩
  | nil =>
    rw [nextLine_last failure cut] at read
    cases failure with
    | some cause => cases read
    | none =>
      by_cases empty : bytes = []
      · simp [empty] at read
      · simp only [Option.map_none, Option.none_or, if_neg empty] at read
        cases read
        exact ⟨by rw [rawLines_last none cut, if_pos ⟨rfl, empty⟩]; rfl, rfl⟩

/-- Nothing is left to be read when no line is. -/
theorem rawLines_of_end {stream left : ByteStream} {answer : Option (Except IoError Bytes)}
    (read : stream.nextLine = (answer, left)) (noLine : ∀ line, answer ≠ some (.ok line)) :
    stream.rawLines = [] ∧ answer = stream.failure.map .error := by
  obtain ⟨bytes, failure⟩ := stream
  cases cut : bytes.dropWhile (!isLineFeed ·) with
  | cons feed rest =>
    rw [nextLine_cons failure cut] at read
    cases read
    exact absurd rfl (noLine _)
  | nil =>
    rw [nextLine_last failure cut] at read
    rw [rawLines_last failure cut]
    cases failure with
    | some cause =>
      cases read
      exact ⟨rfl, rfl⟩
    | none =>
      by_cases empty : bytes = []
      · simp only [Option.map_none, Option.none_or, if_pos empty] at read
        cases read
        exact ⟨if_neg fun both => both.2 empty, rfl⟩
      · simp only [Option.map_none, Option.none_or, if_neg empty] at read
        cases read
        exact absurd rfl (noLine _)

theorem readable_of_end {stream : ByteStream} (none : stream.rawLines = []) :
    stream.readable = [] ∧ stream.fault? = stream.failure := by
  simp [readable, fault?, none]

theorem readable_of_bad {stream left : ByteStream} {line : Bytes}
    (first : stream.rawLines = line :: left.rawLines) (bad : Text.Utf8.decode? line = none) :
    stream.readable = [] ∧ stream.fault? = some .notUtf8 := by
  have illFormed : ¬Text.Utf8.IsWellFormed line := by simp [Text.Utf8.isWellFormed_iff, bad]
  simp [readable, fault?, first, illFormed]

theorem readable_of_good {stream left : ByteStream} {line : Bytes} {text : List Char}
    (first : stream.rawLines = line :: left.rawLines) (same : left.failure = stream.failure)
    (good : Text.Utf8.decode? line = some text) :
    stream.readable = String.ofList text :: left.readable ∧ stream.fault? = left.fault? := by
  have wellFormed : Text.Utf8.IsWellFormed line := by simp [Text.Utf8.isWellFormed_iff, good]
  simp [readable, fault?, first, wellFormed, good, same]

/-- Reading line by line stops at the first failure, which a line that is not well-formed is too. -/
theorem lines_eq (stream : ByteStream) :
    stream.lines.1 = stream.readable ∧ stream.lines.2.1 = stream.fault? := by
  fun_induction lines stream with
  | case1 stream left read =>
    obtain ⟨none, answer⟩ := rawLines_of_end read (by simp)
    obtain ⟨readable, fault⟩ := readable_of_end none
    exact ⟨readable.symm, by rw [fault, Option.map_eq_none_iff.mp answer.symm]⟩
  | case2 stream cause left read =>
    obtain ⟨none, answer⟩ := rawLines_of_end read (by simp)
    obtain ⟨readable, fault⟩ := readable_of_end none
    obtain ⟨_, failed, same⟩ := Option.map_eq_some_iff.mp answer.symm
    cases same
    exact ⟨readable.symm, by rw [fault, failed]⟩
  | case3 stream line left read bad =>
    obtain ⟨readable, fault⟩ := readable_of_bad (rawLines_of_line read).1 bad
    exact ⟨readable.symm, fault.symm⟩
  | case4 stream line left read text good more failure last rest ih =>
    obtain ⟨first, same⟩ := rawLines_of_line read
    obtain ⟨readable, fault⟩ := readable_of_good first same good
    rw [rest] at ih
    exact ⟨by rw [readable, ← ih.1], by rw [fault, ← ih.2]⟩

/-- The items of a stream are appended to what is there, and their number is told. -/
theorem readInto_eq (stream : ByteStream) (origin : String) (items : List Item) :
    (stream.readInto origin items).1 =
      { result := match stream.fault? with
          | some cause => .error (.read origin cause)
          | none => .ok (Item.ofLines stream.readable).length
        items := items ++ Item.ofLines stream.readable
        events := (Warning.ofLines stream.readable).map fun warning =>
          .warn s!"{origin}: {warning.message}" } := by
  obtain ⟨readable, fault⟩ := stream.lines_eq
  unfold readInto
  rcases read : stream.lines with ⟨lines, failure, left⟩
  rw [read] at readable fault
  have logged := (LineReader.items_passes { origin } lines).events
  simp only at readable fault
  subst readable fault
  simp only [LineReader.appendItems_eq, LineReader.items_origin, logged, List.length_append,
    Nat.add_sub_cancel_left]
  rfl

end ByteStream

namespace Source

/-- The lines of a source that are read. -/
def ownLines (opening : Opening) (stdin : ByteStream) (source : Source) : List String :=
  match source.stream? opening stdin with
  | .ok stream => stream.readable
  | .error _ => []

/-- Why a source fails, if it does. -/
def failure? (opening : Opening) (stdin : ByteStream) (source : Source) : Option SourceError :=
  match source.stream? opening stdin with
  | .ok stream => stream.fault?.map (.read source.name)
  | .error e => some e

/-- What is logged about a source. -/
def ownEvents (opening : Opening) (stdin : ByteStream) (source : Source) : List Event :=
  (Warning.ofLines (source.ownLines opening stdin)).map
      (fun warning => .warn s!"{source.name}: {warning.message}") ++
    (source.failure? opening stdin).toList.map fun e => .warn s!"input file: {e.message}"

theorem stream?_congr (opening : Opening) (source : Source) {stdin other : ByteStream}
    (same : source = .stdin → stdin = other) :
    source.stream? opening stdin = source.stream? opening other := by
  cases source with
  | stdin => rw [same rfl]
  | file path => rfl

theorem readInto_eq (opening : Opening) (stdin : ByteStream) (source : Source) (items : List Item)
    {current : ByteStream} (fresh : source = .stdin → current = stdin) :
    (source.readInto opening items current).1 =
        { result := match source.failure? opening stdin with
            | some e => .error e
            | none => .ok (Item.ofLines (source.ownLines opening stdin)).length
          items := items ++ Item.ofLines (source.ownLines opening stdin)
          events := (Warning.ofLines (source.ownLines opening stdin)).map fun warning =>
            .warn s!"{source.name}: {warning.message}" } ∧
      (source ≠ .stdin → (source.readInto opening items current).2 = current) := by
  unfold readInto ownLines failure?
  rw [stream?_congr opening source fresh]
  cases source.stream? opening stdin with
  | error e =>
    have nothing : Item.ofLines [] = [] := congrArg Prod.fst (LineReader.items_nil {})
    exact ⟨by simp only [nothing, List.append_nil]; rfl, fun _ => rfl⟩
  | ok stream =>
    simp only [stream.readInto_eq source.name items]
    refine ⟨?_, fun file => if_neg file⟩
    cases stream.fault? <;> rfl

/-- Reading a source adds what is its own. -/
theorem readNext_eq (opening : Opening) (stdin : ByteStream) (source : Source) (reading : Reading)
    (fresh : source = .stdin → reading.stdin = stdin) :
    (readNext opening reading source).items =
        reading.items ++ Item.ofLines (source.ownLines opening stdin) ∧
      (readNext opening reading source).events = reading.events ++ source.ownEvents opening stdin ∧
      (source ≠ .stdin → (readNext opening reading source).stdin = reading.stdin) := by
  obtain ⟨report, left⟩ := readInto_eq opening stdin source reading.items fresh
  unfold readNext ownEvents
  refine ⟨by simp only [report], ?_, left⟩
  simp only [report]
  cases source.failure? opening stdin <;> simp

/-- Sources are read one after the other; each adds what is its own. -/
theorem foldl_readNext (opening : Opening) (stdin : ByteStream) (sources : List Source)
    (once : sources.count .stdin ≤ 1) (reading : Reading)
    (fresh : .stdin ∈ sources → reading.stdin = stdin) :
    (sources.foldl (readNext opening) reading).items =
        reading.items ++ sources.flatMap (fun source => Item.ofLines (source.ownLines opening stdin)) ∧
      (sources.foldl (readNext opening) reading).events =
        reading.events ++ sources.flatMap (ownEvents opening stdin) := by
  induction sources generalizing reading with
  | nil => exact ⟨(List.append_nil _).symm, (List.append_nil _).symm⟩
  | cons source rest ih =>
    obtain ⟨items, events, left⟩ := readNext_eq opening stdin source reading fun here =>
      fresh (here ▸ List.mem_cons_self)
    have onceRest : rest.count .stdin ≤ 1 := Nat.le_trans List.count_le_count_cons once
    have freshRest : .stdin ∈ rest → (readNext opening reading source).stdin = stdin := by
      intro later
      have file : source ≠ .stdin := by
        rintro rfl
        have twice := List.count_pos_iff.mpr later
        rw [List.count_cons_self] at once
        omega
      rw [left file]
      exact fresh (List.mem_cons_of_mem _ later)
    obtain ⟨allItems, allEvents⟩ := ih onceRest _ freshRest
    rw [List.foldl_cons, allItems, allEvents, items, events]
    simp only [List.flatMap_cons, List.append_assoc, and_self]

/-- What all sources give is what each of them gives alone, one after the other; a failing source
gives the items before its failure and one warning. Reading any stream appends its items to those that
are there and, unless it fails, tells how many they are. -/
theorem readAll_by_source (opening : Opening) (stdin : ByteStream) (sources : List Source)
    (once : sources.count .stdin ≤ 1) :
    readAllFrom opening stdin sources =
        (sources.flatMap fun source => Item.ofLines (source.ownLines opening stdin),
          sources.flatMap (ownEvents opening stdin)) ∧
      ∀ (stream : ByteStream) (origin : String) (items : List Item),
        (stream.readInto origin items).1.items = items ++ Item.ofLines stream.readable ∧
        (stream.readInto origin items).1.result =
          match stream.fault? with
          | some cause => .error (.read origin cause)
          | none => .ok (Item.ofLines stream.readable).length := by
  obtain ⟨items, events⟩ := foldl_readNext opening stdin sources once { stdin := stdin }
    fun _ => rfl
  refine ⟨Prod.ext items events, fun stream origin items => ?_⟩
  rw [ByteStream.readInto_eq]
  exact ⟨rfl, rfl⟩

theorem readAll_by_source_mixed :
    let broken := Text.Utf8.encode "-x=1\na\n-y=2\n".toList ++ [0xFF, 10] ++
      Text.Utf8.encode "b\n".toList
    let opening : Opening := fun path =>
      if path = "broken" then .ok ⟨broken, none⟩
      else if path = "flaky" then
        .ok ⟨Text.Utf8.encode "d\ne".toList, some (.other "Input/output error (os error 5)")⟩
      else .error .notFound
    let stdin : ByteStream := ⟨Text.Utf8.encode "-x\nc\n".toList, none⟩
    let sources := [.file "broken", .file "missing", .stdin, .file "flaky", .file "broken"]
    let item := Item.enriched "a" [] [⟨⟨globalSection, "x", .num (.int 1)⟩, .oneTarget⟩]
    let unreadable :=
      Event.warn "input file: error reading broken: stream did not contain valid UTF-8"
    sources.count .stdin ≤ 1 ∧
      readAllFrom opening stdin sources =
        (sources.flatMap fun source => Item.ofLines (source.ownLines opening stdin),
          sources.flatMap (ownEvents opening stdin)) ∧
      readAllFrom opening stdin sources =
        ([item, .plain "c", .plain "d", item],
          [unreadable,
            .warn "input file: cannot open 'missing': No such file or directory (os error 2)",
            .warn "stdin: line 1: invalid <key>=<value> pair: x",
            .warn "input file: error reading flaky: Input/output error (os error 5)",
            unreadable]) := by
  intro broken opening stdin sources item unreadable
  have once : sources.count .stdin ≤ 1 := by decide
  exact ⟨once, (readAll_by_source opening stdin sources once).1, by decide +kernel⟩

end Source
end BatchFetch
