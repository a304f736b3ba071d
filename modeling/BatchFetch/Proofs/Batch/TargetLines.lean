import BatchFetch.Proofs.Batch.Sources
import BatchFetch.Proofs.Text.Blank

namespace BatchFetch

/-- A target as it is read: it stands on one line, without blanks around it. -/
structure IsListable (target : String) : Prop where
  isTarget : IsTarget target
  trimmed : Text.trimmed target = target
  oneLine : '\n' ∉ target.toList

/-- The text that lists targets. -/
def targetList (targets : List String) : String :=
  String.join (targets.map (· ++ "\n"))

theorem encode_targetList (targets : List String) :
    Text.Utf8.encode (targetList targets).toList =
      targets.flatMap fun target => Text.Utf8.encode target.toList ++ [10] := by
  induction targets with
  | nil => rfl
  | cons target rest ih =>
    have line : Text.Utf8.encode ['\n'] = [10] := rfl
    rw [List.flatMap_cons, ← ih, ← line]
    simp [targetList, Text.Utf8.encode, String.join_cons]

theorem IsTarget.isListable_trimmed {line : String} (target : IsTarget line)
    (oneLine : '\n' ∉ line.toList) : IsListable (Text.trimmed line) where
  isTarget := by
    unfold IsTarget at *
    rw [Text.trimmed, String.toList_ofList, Text.trim_trim]
    exact target
  trimmed := Text.trimmed_trimmed line
  oneLine := by
    rw [Text.trimmed, String.toList_ofList]
    exact fun member => oneLine (Text.trim_subset _ member)

/-- The value of an item is one of the lines, trimmed. -/
theorem Item.exists_line {lines : List String} {item : Item} (member : item ∈ ofLines lines) :
    ∃ line ∈ lines, IsTarget line ∧ item.value = Text.trimmed line := by
  obtain ⟨stretches, tail, cut, quietTail⟩ := Stretch.exists_cut lines
  have start : ({} : LineReader).Idle 0 := ⟨rfl, rfl⟩
  rw [ofLines, cut, LineReader.items_of_cut stretches quietTail start] at member
  obtain ⟨stretch, inside, rfl⟩ := List.mem_map.mp member
  refine ⟨stretch.target, ?_, stretch.isTarget, stretch.item_value⟩
  rw [cut]
  exact List.mem_append_left _ (List.mem_flatMap.mpr ⟨stretch, inside, by simp [Stretch.lines]⟩)

namespace ByteStream

theorem nextLine_free {stream left : ByteStream} {line : Bytes}
    (read : stream.nextLine = (some (.ok line), left)) : 10 ∉ line := by
  obtain ⟨bytes, failure⟩ := stream
  have free : 10 ∉ bytes.takeWhile (!isLineFeed ·) := by
    intro member
    exact absurd (List.all_eq_true.mp List.all_takeWhile 10 member) (by decide)
  cases cut : bytes.dropWhile (!isLineFeed ·) with
  | cons feed rest =>
    rw [nextLine_cons failure cut] at read
    cases read
    unfold dropReturn
    split
    · exact fun member => free (List.dropLast_subset _ member)
    · exact free
  | nil =>
    rw [(splitOnP_of_last cut).2] at free
    rw [nextLine_last failure cut] at read
    cases failure with
    | some cause => cases read
    | none =>
      by_cases empty : bytes = []
      · simp [empty] at read
      · simp only [Option.map_none, Option.none_or, if_neg empty] at read
        cases read
        exact free

theorem oneLine_of_mem_lines {stream : ByteStream} {line : String} (member : line ∈ stream.lines.1) :
    '\n' ∉ line.toList := by
  fun_induction lines stream with
  | case1 | case2 | case3 => cases member
  | case4 stream left line read text good more failure last rest ih =>
    rcases List.mem_cons.mp member with rfl | later
    · intro inside
      refine nextLine_free read ?_
      rw [Text.Utf8.decode?_eq_some_iff.mp good]
      rw [String.toList_ofList] at inside
      exact List.mem_flatMap.mpr ⟨'\n', inside, by decide⟩
    · rw [rest] at ih
      exact ih later

theorem isListable_of_mem {stream : ByteStream} {item : Item}
    (member : item ∈ Item.ofLines stream.readable) : IsListable item.value := by
  obtain ⟨line, inside, target, value⟩ := Item.exists_line member
  rw [← stream.lines_eq.1] at inside
  rw [value]
  exact target.isListable_trimmed (oneLine_of_mem_lines inside)

end ByteStream

namespace Source

theorem isListable_of_readInto {opening : Opening} {source : Source} {items : List Item}
    {stdin : ByteStream} (before : ∀ item ∈ items, IsListable item.value) :
    ∀ item ∈ (source.readInto opening items stdin).1.items, IsListable item.value := by
  intro item member
  unfold readInto at member
  split at member
  · exact before item member
  · rename_i stream _
    simp only [stream.readInto_eq] at member
    rcases List.mem_append.mp member with old | new
    · exact before item old
    · exact ByteStream.isListable_of_mem new

/-- The targets that are read from sources can be listed. -/
theorem isListable_of_readAll {opening : Opening} {stdin : ByteStream} {sources : List Source}
    {item : Item} (member : item ∈ (readAllFrom opening stdin sources).1) :
    IsListable item.value := by
  have every (sources : List Source) (reading : Reading)
      (before : ∀ item ∈ reading.items, IsListable item.value) :
      ∀ item ∈ (sources.foldl (readNext opening) reading).items, IsListable item.value := by
    induction sources generalizing reading with
    | nil => exact before
    | cons source rest ih => exact ih _ (isListable_of_readInto before)
  exact every sources _ (by simp) item member

end Source

namespace ByteStream

/-- What a line loses with its end is at most a blank character. -/
theorem dropReturn_encode (cs : List Char) :
    ∃ kept, dropReturn (Text.Utf8.encode cs) = Text.Utf8.encode kept ∧
      Text.trim kept = Text.trim cs := by
  unfold dropReturn
  split
  · rename_i last
    have returns := Text.Utf8.getLast?_of_encode (c := '\r') (by decide) (by decide) last
    obtain ⟨kept, rfl⟩ := List.getLast?_eq_some_iff.mp returns
    have bytes : Text.Utf8.encode (kept ++ ['\r']) = Text.Utf8.encode kept ++ [13] :=
      List.flatMap_append
    refine ⟨kept, by rw [bytes, List.dropLast_concat], ?_⟩
    exact (Text.trim_append_blank kept (List.forall_mem_singleton.mpr (by decide))).symm
  · exact ⟨cs, rfl, rfl⟩

theorem free_of_oneLine {cs : List Char} (oneLine : '\n' ∉ cs) :
    ∀ b ∈ Text.Utf8.encode cs, (!isLineFeed b) = true := by
  intro b member
  rw [Bool.not_eq_true', isLineFeed, beq_eq_false_iff_ne]
  rintro rfl
  exact oneLine (Text.Utf8.mem_of_mem_encode (by decide) (by decide) member)

/-- Characters without a line feed that are written before one are a line. -/
theorem rawLines_encode {cs : List Char} (oneLine : '\n' ∉ cs) (rest : Bytes)
    (failure : Option IoError) :
    rawLines ⟨Text.Utf8.encode cs ++ 10 :: rest, failure⟩ =
      dropReturn (Text.Utf8.encode cs) :: rawLines ⟨rest, failure⟩ := by
  have free := free_of_oneLine oneLine
  have line : (Text.Utf8.encode cs ++ 10 :: rest).takeWhile (!isLineFeed ·) = Text.Utf8.encode cs := by
    rw [List.takeWhile_append_of_pos free]
    exact List.append_nil _
  have cut : (Text.Utf8.encode cs ++ 10 :: rest).dropWhile (!isLineFeed ·) = 10 :: rest := by
    rw [List.dropWhile_append_of_pos free]
    rfl
  rw [rawLines_cons failure cut, line]

end ByteStream

theorem IsListable.dropReturn_eq {target : String} (listable : IsListable target) :
    ByteStream.dropReturn (Text.Utf8.encode target.toList) = Text.Utf8.encode target.toList := by
  refine if_neg fun last => ?_
  have returns := Text.Utf8.getLast?_of_encode (c := '\r') (by decide) (by decide) last
  have same := Text.trim_eq_of_trimmed listable.trimmed
  rw [← same] at returns
  exact absurd (Text.not_isBlank_of_getLast? returns) (by decide)

theorem ByteStream.readable_targetList {targets : List String}
    (listable : ∀ target ∈ targets, IsListable target) :
    readable ⟨Text.Utf8.encode (targetList targets).toList, none⟩ = targets ∧
      fault? ⟨Text.Utf8.encode (targetList targets).toList, none⟩ = none := by
  rw [encode_targetList]
  induction targets with
  | nil => exact readable_of_end (by simp [rawLines])
  | cons target rest ih =>
    obtain ⟨readable, fault⟩ := ih fun other member => listable other (List.mem_cons_of_mem _ member)
    have here := listable target List.mem_cons_self
    have lines := rawLines_encode here.oneLine
      (rest.flatMap fun target => Text.Utf8.encode target.toList ++ [10]) none
    rw [here.dropReturn_eq] at lines
    rw [List.flatMap_cons, List.append_assoc, List.singleton_append]
    obtain ⟨first, same⟩ := readable_of_good lines rfl (Text.Utf8.decode?_eq_some_iff.mpr rfl)
    rw [first, same, readable, fault, String.ofList_toList]
    exact ⟨rfl, rfl⟩

theorem Item.ofLines_targets {targets : List String}
    (listable : ∀ target ∈ targets, IsListable target) :
    ofLines targets = targets.map .plain := by
  have every (reader : LineReader) (idle : ∀ scope, reader.queued scope = []) :
      (reader.items targets).1 = targets.map .plain := by
    induction targets generalizing reader with
    | nil => rw [LineReader.items_nil, List.map_nil]
    | cons target rest ih =>
      have here := listable target List.mem_cons_self
      rw [LineReader.items_of_target here.isTarget, idle, idle, here.trimmed,
        ih (fun other member => listable other (List.mem_cons_of_mem _ member)) _
          (LineReader.queued_clear _)]
      rfl
  exact every {} (LineReader.queued_clear {})

theorem Warning.ofLines_targets {targets : List String}
    (listable : ∀ target ∈ targets, IsListable target) : ofLines targets = [] :=
  ofLines_eq_nil fun target member => Malformed.ofLine?_of_target (listable target member).isTarget

/-- A list of targets is read without a warning, and its targets are the items. -/
theorem ByteStream.readInto_targetList {targets : List String}
    (listable : ∀ target ∈ targets, IsListable target) (origin : String) (items : List Item) :
    (readInto ⟨Text.Utf8.encode (targetList targets).toList, none⟩ origin items).1 =
      ⟨.ok targets.length, items ++ targets.map .plain, []⟩ := by
  obtain ⟨readable, fault⟩ := readable_targetList listable
  rw [readInto_eq, readable, fault, Item.ofLines_targets listable, Warning.ofLines_targets listable,
    List.length_map]
  rfl

end BatchFetch
