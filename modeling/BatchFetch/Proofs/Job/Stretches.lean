import BatchFetch.Proofs.Job.Acts
import BatchFetch.Proofs.Text.Blank
import BatchFetch.Proofs.Text.Digits
import BatchFetch.Session.Configuration

namespace BatchFetch

theorem parseUInt32?_toDigits {n : Nat} (small : n < UInt32.size) :
    parseUInt32? (Nat.toDigits 10 n) = some n := by
  have read : Text.number? 10 (Nat.toDigits 10 n) = some n :=
    Text.number?_toDigits (by decide) (by decide) n
  have noSign : '+' ∉ Nat.toDigits 10 n :=
    Text.not_mem_toDigits (by decide) (by decide) (by decide +kernel)
  rw [parseUInt32?, read, Option.bind_some, if_pos small]
  intro rest signed
  rw [signed] at noSign
  exact noSign List.mem_cons_self

namespace SkipMode

theorem trim_toDigits (n : Nat) : Text.trim (Nat.toDigits 10 n) = Nat.toDigits 10 n := by
  have visible {c : Char} (member : c ∈ Nat.toDigits 10 n) : Text.isBlank c = false :=
    Text.visible_of_isDigit (Nat.isDigit_of_mem_toDigits (by decide) (by decide) member)
  exact Text.trim_eq_self (fun c first => visible (List.mem_of_mem_head? first))
    fun c last => visible (List.mem_of_mem_getLast? last)

/-- A count is read back from the text that is written for it; a limit of zero is one of one. -/
theorem ofText_count {name : String} (isLimit : name = "abort" ∨ name = "terminate") {n : Nat}
    (small : n < UInt32.size) {mode : String}
    (written : mode.toList = name.toList ++ ':' :: Nat.toDigits 10 n) :
    ofText mode = .abort (max n 1) := by
  have noColon : ':' ∉ name.toList := by
    rcases isLimit with rfl | rfl <;> decide
  rw [ofText, written, Text.cutFirst_append noColon, Option.getD_some]
  dsimp only
  rw [String.ofList_toList, if_pos isLimit, trim_toDigits, parseUInt32?_toDigits small,
    Option.getD_some]

end SkipMode

namespace Arguments

/-- A text that is written for `skip` when the command line asks for an end after so many skipped
files, under one of the two names of that option. -/
def WritesLimit (n : Nat) (text : String) : Prop :=
  globalText "skip" text ∈ ({ abort := some n } : Arguments).overrides ∨
    globalText "skip" text ∈ ({ terminate := some n } : Arguments).overrides

theorem WritesLimit.ofText {n : Nat} {text : String} (writes : WritesLimit n text)
    (small : n < UInt32.size) : SkipMode.ofText text = .abort (max n 1) := by
  rcases writes with asked | asked
  · have same : text = s!"abort:{n}" := by
      simpa [overrides, globalText] using asked
    refine SkipMode.ofText_count (Or.inl rfl) small ?_
    rw [same, String.toList_append, Text.toList_toString]
    rfl
  · have same : text = s!"terminate:{n}" := by
      simpa [overrides, globalText] using asked
    refine SkipMode.ofText_count (Or.inr rfl) small ?_
    rw [same, String.toList_append, Text.toList_toString]
    rfl

end Arguments

namespace Download

/-- The count of skipped files in a row after one more file. -/
def count (skips : Nat) (skipped : Bool) : Nat :=
  if skipped then skips + 1 else 0

/-- The number of skipped files at the end. -/
def trailing (marks : List Bool) : Nat :=
  marks.foldl count 0

/-- So many skipped files come one after the other. -/
def HasStretch (limit : Nat) (marks : List Bool) : Prop :=
  List.replicate limit true <:+: marks

theorem trailing_append (marks : List Bool) (skipped : Bool) :
    trailing (marks ++ [skipped]) = count (trailing marks) skipped := by
  rw [trailing, List.foldl_append]
  rfl

theorem stretch_suffix_iff (limit : Nat) (marks : List Bool) :
    List.replicate limit true <:+ marks ↔ limit ≤ trailing marks := by
  induction marks using List.reverseRecOn generalizing limit with
  | nil =>
    rw [List.suffix_nil, List.replicate_eq_nil_iff]
    exact Nat.le_zero.symm
  | append_singleton marks skipped ih =>
    cases limit with
    | zero => exact iff_of_true List.nil_suffix (Nat.zero_le _)
    | succ limit =>
      rw [trailing_append, List.replicate_succ', List.suffix_concat_iff,
        or_iff_right (List.append_ne_nil_of_right_ne_nil _ (List.cons_ne_nil _ _))]
      constructor
      · rintro ⟨front, equal, suffix⟩
        obtain ⟨rfl, same⟩ := List.append_inj' equal rfl
        rw [← List.singleton_inj.mp same]
        exact Nat.succ_le_succ ((ih limit).mp suffix)
      · intro enough
        cases skipped with
        | false => exact absurd enough (Nat.not_succ_le_zero limit)
        | true => exact ⟨_, rfl, (ih limit).mpr (Nat.le_of_succ_le_succ enough)⟩

theorem hasStretch_append_iff (limit : Nat) (marks : List Bool) (skipped : Bool) :
    HasStretch limit (marks ++ [skipped]) ↔
      HasStretch limit marks ∨ limit ≤ count (trailing marks) skipped := by
  rw [HasStretch, List.infix_concat_iff, stretch_suffix_iff, trailing_append, or_comm]
  rfl

/-- Whether the file that is next, if there is one, is skipped because something is at its
destination. -/
def Stage.mark? (settings : DownloadSettings) (stage : Stage) : Option Bool :=
  match stage.aborted, stage.entries with
  | false, .file url :: _ => some (stage.state.files.pathExists (settings.destination url))
  | _, _ => none

/-- The files that are met, in order, and whether each is skipped. -/
def marks (settings : DownloadSettings) (passed : List Stage) : List Bool :=
  passed.filterMap (Stage.mark? settings)

/-- The same job without a limit. -/
def steady (settings : DownloadSettings) : DownloadSettings :=
  { settings with skip := (SkipMode.ofValue (some (.bool true))).1 }

variable {site : Site} {settings : DownloadSettings} {root : Url} {start : Stage} {limit : Nat}

theorem Stage.At.mark {stage : Stage} {url : Url} {state : State} (at_ : stage.At url state) :
    stage.mark? settings = some (state.files.pathExists (settings.destination url)) := by
  obtain ⟨seen, queue, entries, rfl⟩ := at_
  rfl

theorem Stage.mark?_eq_some {stage : Stage} {skipped : Bool}
    (mark : stage.mark? settings = some skipped) :
    ∃ url, stage.At url stage.state ∧
      stage.state.files.pathExists (settings.destination url) = skipped := by
  obtain ⟨seen, queue, entries, state, aborted⟩ := stage
  unfold mark? at mark
  split at mark
  · rename_i going found
    exact ⟨_, ⟨seen, queue, _, by rw [← going, ← found]⟩, Option.some.inj mark⟩
  · cases mark

theorem marks_append (settings : DownloadSettings) (passed : List Stage) (stage : Stage) :
    marks settings (passed ++ [stage]) = marks settings passed ++ (stage.mark? settings).toList := by
  rw [marks, List.filterMap_append]
  rfl

theorem skip_skips (settings : DownloadSettings) (root : Url) (path : String) (state : State) :
    (skip settings root path state).2.skips = state.skips + 1 := by
  obtain ⟨trail, same, _⟩ := exists_skip settings root path state
  rw [same]

theorem store_skips (state : State) (path : String) (bytes : Bytes) :
    (store state path bytes).skips = state.skips := by
  simp only [store]
  split
  · rfl
  · split <;> rfl

/-- A file that is not there ends a stretch, however fetching and storing it end. -/
theorem file_skips (patient : settings.skip ≠ .disabled) (site : Site) (root url : Url)
    (state : State) : (file site settings root url state).2.skips =
      count state.skips (state.files.pathExists (settings.destination url)) := by
  cases there : state.files.pathExists (settings.destination url) with
  | true =>
    rw [file_of_skips ⟨there, patient⟩, skip_skips]
    rfl
  | false =>
    have tries : ¬ Skips settings url state.files := fun skips =>
      Bool.false_ne_true (there.symm.trans skips.1)
    cases fetched : (site.fetch url).result with
    | error => rw [file_of_unfetched tries fetched]; rfl
    | ok bytes =>
      rw [file_of_fetched tries fetched, store_skips]
      rfl

theorem Step.skips (patient : settings.skip ≠ .disabled) {stage middle : Stage} {deeds : List Deed}
    (step : Step site settings root stage deeds middle) :
    middle.state.skips = (stage.mark? settings).toList.foldl count stage.state.skips := by
  cases step with
  | @hand seen queue url entries state after aborted handled =>
    have counted := file_skips patient site root url state
    rw [handled] at counted
    rw [Stage.At.next.mark, counted]
    rfl
  | resolve | known | discover | report => rfl

/-- The counter is the number of files that have just been skipped in a row. -/
theorem Passes.skips (patient : settings.skip ≠ .disabled) {last : Stage} {passed : List Stage}
    (passes : Passes site settings root start passed last) (fresh : start.state.skips = 0) :
    last.state.skips = trailing (marks settings passed) := by
  induction passes with
  | here => exact fresh
  | next _ step ih => rw [step.skips patient, ih, marks_append, trailing, trailing, List.foldl_append]

theorem patient_of_limited (limited : settings.skip = .abort limit) : settings.skip ≠ .disabled := by
  rw [limited]
  exact fun asked => by cases asked

theorem skips_steady_iff (patient : settings.skip ≠ .disabled) (url : Url) (files : FileSystem) :
    Skips (steady settings) url files ↔ Skips settings url files :=
  ⟨fun skips => ⟨skips.1, patient⟩, fun skips => ⟨skips.1, fun asked => by cases asked⟩⟩

theorem Stage.acts_steady (patient : settings.skip ≠ .disabled) (stage : Stage) :
    stage.acts site (steady settings) = stage.acts site settings := by
  have same (url : Url) (files : FileSystem) :
      fileActs site (steady settings) url files = fileActs site settings url files := by
    have iff := skips_steady_iff patient url files
    by_cases skips : Skips settings url files
    · rw [fileActs_of_skips skips, fileActs_of_skips (iff.mpr skips)]
    · rw [fileActs_of_tries skips, fileActs_of_tries (mt iff.mp skips)]
      rfl
  rw [acts, acts]
  simp only [same]

/-- A file is dealt with as without the limit, unless it is skipped and meets the limit. -/
theorem file_of_steady (limited : settings.skip = .abort limit) (site : Site) (root url : Url)
    (state : State) :
    (¬ (state.files.pathExists (settings.destination url) = true ∧ limit ≤ state.skips + 1) ∧
        file site settings root url state = file site (steady settings) root url state) ∨
      (state.files.pathExists (settings.destination url) = true ∧ limit ≤ state.skips + 1 ∧
        (file site settings root url state).1 = true) := by
  have patient := patient_of_limited limited
  have iff := skips_steady_iff patient url state.files
  by_cases skips : Skips settings url state.files
  · rw [file_of_skips skips, file_of_skips (iff.mpr skips)]
    by_cases enough : limit ≤ state.skips + 1
    · refine Or.inr ⟨skips.1, enough, ?_⟩
      simp only [skip, limited, if_pos enough]
    · refine Or.inl ⟨fun met => enough met.2, ?_⟩
      simp only [skip, limited, if_neg enough]
      rfl
  · refine Or.inl ⟨fun met => skips ⟨met.1, patient⟩, ?_⟩
    cases fetched : (site.fetch url).result with
    | error => rw [file_of_unfetched skips fetched, file_of_unfetched (mt iff.mp skips) fetched]
    | ok bytes =>
      rw [file_of_fetched skips fetched, file_of_fetched (mt iff.mp skips) fetched]
      rfl

theorem Step.of_steady (limited : settings.skip = .abort limit) {stage middle : Stage}
    {deeds : List Deed} (step : Step site (steady settings) root stage deeds middle) :
    (¬ (stage.mark? settings = some true ∧ limit ≤ stage.state.skips + 1) ∧
        Step site settings root stage deeds middle) ∨
      (stage.mark? settings = some true ∧ limit ≤ stage.state.skips + 1 ∧
        ∃ stop, Step site settings root stage deeds stop ∧ stop.aborted = true) := by
  cases step with
  | @hand seen queue url entries state after aborted handled =>
    rw [Stage.At.next.mark, Option.some.injEq]
    rcases file_of_steady limited site root url state with
      ⟨open_, same⟩ | ⟨there, enough, ends⟩
    · exact Or.inl ⟨open_, .hand (same.trans handled)⟩
    · refine Or.inr ⟨there, enough, _, .hand rfl, ends⟩
  | resolve => exact Or.inl ⟨fun met => (nomatch met.1), .resolve⟩
  | known old => exact Or.inl ⟨fun met => (nomatch met.1), .known old⟩
  | discover new claimed =>
    exact Or.inl ⟨fun met => (nomatch met.1), .discover new claimed⟩
  | report new unclaimed =>
    exact Or.inl ⟨fun met => (nomatch met.1), .report new unclaimed⟩

/-- These stages end with the first stretch: it is complete at the last of them, and not before. -/
structure FirstStretch (settings : DownloadSettings) (limit : Nat) (passed : List Stage) : Prop where
  complete : List.replicate limit true <:+ marks settings passed
  first : ∀ shorter, shorter <+: passed → shorter ≠ passed →
    ¬ HasStretch limit (marks settings shorter)

theorem HasStretch.of_prefix {passed done : List Stage} (within : done <+: passed)
    (stretch : HasStretch limit (marks settings done)) :
    HasStretch limit (marks settings passed) :=
  stretch.trans (within.filterMap _).isInfix

theorem hasStretch_next_iff (limit : Nat) (passed : List Stage) (stage : Stage) :
    HasStretch limit (marks settings (passed ++ [stage])) ↔
      HasStretch limit (marks settings passed) ∨
        ∃ skipped, stage.mark? settings = some skipped ∧
          limit ≤ count (trailing (marks settings passed)) skipped := by
  rw [marks_append]
  cases stage.mark? settings with
  | none => simp
  | some skipped => simp [hasStretch_append_iff]

/-- The job with a limit passes the stages of the job without, as long as there is no stretch. -/
theorem Passes.of_steady (limited : settings.skip = .abort limit) (positive : 0 < limit)
    (fresh : start.state.skips = 0) {last : Stage} {passed : List Stage}
    (passes : Passes site (steady settings) root start passed last) :
    (¬ HasStretch limit (marks settings passed) ∧ Passes site settings root start passed last) ∨
      ∃ done stop, done <+: passed ∧ Passes site settings root start done stop ∧
        stop.aborted = true ∧ FirstStretch settings limit done := by
  have patient := patient_of_limited limited
  induction passes with
  | here =>
    refine Or.inl ⟨fun stretch => ?_, .here⟩
    have none := (List.replicate_eq_nil_iff _).mp (List.infix_nil.mp stretch)
    exact positive.ne' none
  | @next passed stage middle deeds _ step ih =>
    rcases ih with ⟨free, passes⟩ | ⟨done, stop, within, passes, aborted, first⟩
    · have counted := passes.skips patient fresh
      rcases step.of_steady limited with ⟨open_, same⟩ | ⟨there, enough, stop, same, aborted⟩
      · refine Or.inl ⟨?_, .next passes same⟩
        rw [hasStretch_next_iff, ← counted]
        rintro (earlier | ⟨skipped, mark, enough⟩)
        · exact free earlier
        · cases skipped with
          | true => exact open_ ⟨mark, enough⟩
          | false => exact positive.ne' (Nat.le_zero.mp enough)
      · refine Or.inr ⟨passed ++ [stage], stop, List.prefix_rfl, .next passes same, aborted, ?_, ?_⟩
        · rw [marks_append, there, stretch_suffix_iff, Option.toList_some, trailing_append, ← counted]
          exact enough
        · intro shorter within differs stretch
          rcases List.prefix_concat_iff.mp within with whole | earlier
          · exact differs whole
          · exact free (stretch.of_prefix earlier)
    · exact Or.inr ⟨done, stop, within.trans (List.prefix_append _ _), passes, aborted, first⟩

/-- The counter stays below the limit until the job ends, where it is no more than the limit. -/
theorem Step.skips_le (limited : settings.skip = .abort limit) (positive : 0 < limit)
    {stage middle : Stage} {deeds : List Deed}
    (step : Step site settings root stage deeds middle) (below : stage.state.skips < limit) :
    middle.state.skips ≤ limit ∧ (middle.aborted = false → middle.state.skips < limit) := by
  have patient := patient_of_limited limited
  have stays {skips : Nat} (less : skips < limit) {aborted : Bool} :
      skips ≤ limit ∧ (aborted = false → skips < limit) := ⟨less.le, fun _ => less⟩
  cases step with
  | @hand seen queue url entries state after aborted handled =>
    have counted := file_skips patient site root url state
    have ways := file_of_steady limited site root url state
    rw [handled] at counted ways
    dsimp only at counted below ⊢
    rcases ways with ⟨open_, _⟩ | ⟨there, _, ends⟩
    · refine stays ?_
      rw [counted, count]
      split
      · exact Nat.lt_of_not_le fun enough => open_ ⟨‹_›, enough⟩
      · exact positive
    · rw [counted, there]
      exact ⟨below, fun going => absurd (going.symm.trans ends) Bool.false_ne_true⟩
  | resolve | known | discover | report => exact stays below

theorem Passes.skips_le (limited : settings.skip = .abort limit) (positive : 0 < limit)
    (fresh : start.state.skips = 0) {last : Stage} {passed : List Stage}
    (passes : Passes site settings root start passed last) :
    last.state.skips ≤ limit ∧ (last.aborted = false → last.state.skips < limit) := by
  induction passes with
  | here =>
    rw [fresh]
    exact ⟨Nat.zero_le _, fun _ => positive⟩
  | next _ step ih =>
    refine step.skips_le limited positive (ih.2 ?_)
    cases step <;> rfl

/-- All the turns to an end are those of the job. -/
theorem Passes.run?_eq {files : FileSystem} {last : Stage} {passed : List Stage}
    (passes : Passes site settings root (.start root files) passed last) (ended : last.Ended) :
    run? site settings root files = some last.report := by
  obtain ⟨deeds, steps⟩ := passes.exists_steps
  exact run?_eq_some_iff.mpr ⟨deeds, last, steps, ended, rfl⟩

theorem Passes.not_aborted (gentle : ∀ limit, settings.skip ≠ .abort limit) {last : Stage}
    {passed : List Stage} (passes : Passes site settings root start passed last)
    (going : start.aborted = false) : last.aborted = false := by
  obtain ⟨_, steps⟩ := passes.exists_steps
  exact steps.not_aborted gentle going

theorem Stage.outcome_eq_aborted_iff (stage : Stage) :
    stage.outcome = .aborted ↔ stage.aborted = true := by
  rw [outcome]
  cases stage.aborted <;> simp

/-- A turn aborts the job if its file makes a stretch of what was counted before. -/
theorem Step.aborted_iff (limited : settings.skip = .abort limit) {stage middle : Stage}
    {deeds : List Deed} (step : Step site settings root stage deeds middle) :
    middle.aborted = true ↔ stage.mark? settings = some true ∧ limit ≤ stage.state.skips + 1 := by
  cases step with
  | @hand seen queue url entries state after aborted handled =>
    rw [Stage.At.next.mark, Option.some.injEq]
    rcases file_of_steady limited site root url state with ⟨open_, same⟩ | ⟨there, enough, ends⟩
    · have going : (file site (steady settings) root url state).1 = false :=
        file_not_aborted (fun _ asked => by cases asked) url state
      rw [← same, handled] at going
      exact iff_of_false (fun cut => Bool.false_ne_true (going.symm.trans cut)) open_
    · rw [handled] at ends
      exact iff_of_true ends ⟨there, enough⟩
  | resolve | known | discover | report =>
    exact iff_of_false Bool.false_ne_true fun met => (nomatch met.1)

/-- What is taken with a limit is taken without, and leads to the same stage unless it is the last. -/
theorem Step.to_steady (limited : settings.skip = .abort limit) {stage middle : Stage}
    {deeds : List Deed} (step : Step site settings root stage deeds middle) :
    ∃ other, Step site (steady settings) root stage deeds other ∧
      (middle.aborted = false → other = middle) := by
  cases step with
  | @hand seen queue url entries state after aborted handled =>
    obtain ⟨cut, next, handledToo⟩ :
        ∃ cut next, file site (steady settings) root url state = (cut, next) := ⟨_, _, rfl⟩
    refine ⟨_, .hand handledToo, fun going => ?_⟩
    rcases file_of_steady limited site root url state with ⟨_, same⟩ | ⟨_, _, ends⟩
    · cases handledToo.symm.trans (same.symm.trans handled)
      rfl
    · rw [handled] at ends
      exact absurd (going.symm.trans ends) Bool.false_ne_true
  | resolve => exact ⟨_, .resolve, fun _ => rfl⟩
  | known old => exact ⟨_, .known old, fun _ => rfl⟩
  | discover new claimed => exact ⟨_, .discover new claimed, fun _ => rfl⟩
  | report new unclaimed => exact ⟨_, .report new unclaimed, fun _ => rfl⟩

theorem Passes.to_steady (limited : settings.skip = .abort limit) {last : Stage}
    {passed : List Stage} (passes : Passes site settings root start passed last) :
    ∃ other, Passes site (steady settings) root start passed other ∧
      (last.aborted = false → other = last) := by
  induction passes with
  | here => exact ⟨start, .here, fun _ => rfl⟩
  | @next passed stage middle deeds _ step ih =>
    obtain ⟨other, passes, same⟩ := ih
    obtain ⟨next, stepToo, sameNext⟩ := step.to_steady limited
    rw [same (by cases step <;> rfl)] at passes
    exact ⟨next, .next passes stepToo, sameNext⟩

/-- The job with a limit is aborted once it has passed a stretch. -/
theorem Passes.aborted_iff (limited : settings.skip = .abort limit) (positive : 0 < limit)
    (fresh : start.state.skips = 0) (going : start.aborted = false) {last : Stage}
    {passed : List Stage} (passes : Passes site settings root start passed last) :
    last.aborted = true ↔ HasStretch limit (marks settings passed) := by
  have patient := patient_of_limited limited
  induction passes with
  | here =>
    refine iff_of_false (fun cut => Bool.false_ne_true (going.symm.trans cut)) fun stretch => ?_
    exact positive.ne' ((List.replicate_eq_nil_iff _).mp (List.infix_nil.mp stretch))
  | @next passed stage middle deeds before step ih =>
    have open_ : ¬ HasStretch limit (marks settings passed) := by
      refine mt ih.mpr ?_
      cases step <;> exact Bool.false_ne_true
    rw [hasStretch_next_iff, or_iff_right open_, step.aborted_iff limited,
      ← before.skips patient fresh]
    constructor
    · rintro ⟨mark, enough⟩
      exact ⟨true, mark, enough⟩
    · rintro ⟨skipped, mark, enough⟩
      cases skipped with
      | true => exact ⟨mark, enough⟩
      | false => exact absurd (Nat.le_zero.mp enough) positive.ne'

/-- Where the job without a limit never meets a stretch, the limit makes no difference. -/
theorem run?_eq_steady (limited : settings.skip = .abort limit) (positive : 0 < limit)
    {files : FileSystem}
    (free : ∀ passed last, Passes site (steady settings) root (.start root files) passed last →
      ¬ HasStretch limit (marks settings passed)) :
    run? site settings root files = run? site (steady settings) root files := by
  refine Option.ext fun report => ?_
  rw [run?_eq_some_iff, run?_eq_some_iff]
  constructor
  · rintro ⟨_, last, steps, ended, rfl⟩
    obtain ⟨passed, passes⟩ := steps.exists_passes
    obtain ⟨other, steadily, same⟩ := passes.to_steady limited
    have going : last.aborted = false := by
      rw [Bool.eq_false_iff, ne_eq, passes.aborted_iff limited positive rfl rfl]
      exact free passed other steadily
    obtain rfl := same going
    obtain ⟨deeds, stepsToo⟩ := steadily.exists_steps
    exact ⟨deeds, _, stepsToo, ended, rfl⟩
  · rintro ⟨_, last, steps, ended, rfl⟩
    obtain ⟨passed, steadily⟩ := steps.exists_passes
    rcases steadily.of_steady limited positive rfl with ⟨_, passes⟩ | ⟨done, stop, within, _, _, first⟩
    · obtain ⟨deeds, stepsToo⟩ := passes.exists_steps
      exact ⟨deeds, last, stepsToo, ended, rfl⟩
    · exact absurd (HasStretch.of_prefix within first.complete.isInfix) (free passed last steadily)

/-- The job with a limit stops in the midst of a job without one that meets a stretch. -/
theorem Passes.exists_stop (limited : settings.skip = .abort limit) (positive : 0 < limit)
    {files : FileSystem} {passed : List Stage} {last : Stage}
    (steadily : Passes site (steady settings) root (.start root files) passed last)
    (stretch : HasStretch limit (marks settings passed)) :
    ∃ done stop, done <+: passed ∧ FirstStretch settings limit done ∧
      Passes site settings root (.start root files) done stop ∧ stop.Ended ∧
      stop.outcome = .aborted ∧ run? site settings root files = some stop.report := by
  rcases steadily.of_steady limited positive rfl with
    ⟨free, _⟩ | ⟨done, stop, within, passes, aborted, first⟩
  · exact absurd stretch free
  · exact ⟨done, stop, within, first, passes, Or.inl aborted,
      stop.outcome_eq_aborted_iff.mpr aborted, passes.run?_eq (Or.inl aborted)⟩

/-- The job with a limit is aborted if the job without one meets a stretch at some time. -/
theorem exists_aborted_iff (limited : settings.skip = .abort limit) (positive : 0 < limit)
    {files : FileSystem} :
    (∃ report, run? site settings root files = some report ∧ report.outcome = .aborted) ↔
      ∃ passed last, Passes site (steady settings) root (.start root files) passed last ∧
        HasStretch limit (marks settings passed) := by
  constructor
  · rintro ⟨_, ran, aborted⟩
    obtain ⟨_, last, steps, _, rfl⟩ := run?_eq_some_iff.mp ran
    obtain ⟨passed, passes⟩ := steps.exists_passes
    obtain ⟨other, steadily, _⟩ := passes.to_steady limited
    exact ⟨passed, other, steadily, (passes.aborted_iff limited positive rfl rfl).mp
      (last.outcome_eq_aborted_iff.mp aborted)⟩
  · rintro ⟨passed, last, steadily, stretch⟩
    obtain ⟨_, stop, _, _, _, _, aborted, ran⟩ := steadily.exists_stop limited positive stretch
    exact ⟨stop.report, ran, aborted⟩

/-- If the job without a limit comes to an end, all of it is looked through for a stretch. -/
theorem Passes.aborted_iff_of_ended (limited : settings.skip = .abort limit) (positive : 0 < limit)
    {files : FileSystem} {passed : List Stage} {last : Stage}
    (steadily : Passes site (steady settings) root (.start root files) passed last)
    (ended : last.Ended) {report : Report} (ran : run? site settings root files = some report) :
    report.outcome = .aborted ↔ HasStretch limit (marks settings passed) := by
  constructor
  · intro aborted
    rcases steadily.of_steady limited positive rfl with ⟨_, same⟩ | ⟨done, stop, within, _, _, first⟩
    · rw [Option.some.inj (ran.symm.trans (same.run?_eq ended))] at aborted
      have whole := steadily.not_aborted (fun _ asked => by cases asked) rfl
      have cut := last.outcome_eq_aborted_iff.mp aborted
      exact absurd (whole.symm.trans cut) Bool.false_ne_true
    · exact HasStretch.of_prefix within first.complete.isInfix
  · intro stretch
    obtain ⟨_, ranToo, aborted⟩ := (exists_aborted_iff limited positive).mpr ⟨_, _, steadily, stretch⟩
    cases ran.symm.trans ranToo
    exact aborted

theorem Step.skips_of_tried (patient : settings.skip ≠ .disabled) {stage middle : Stage}
    {deeds : List Deed} (step : Step site settings root stage deeds middle) {url : Url}
    {state : State} (at_ : stage.At url state) (tries : ¬ Skips settings url state.files) :
    middle.state.skips = 0 := by
  have absent : state.files.pathExists (settings.destination url) = false :=
    Bool.eq_false_iff.mpr fun there => tries ⟨there, patient⟩
  rw [step.skips patient, at_.mark, absent]
  rfl

theorem Step.skips_of_noFile (patient : settings.skip ≠ .disabled) {stage middle : Stage}
    {deeds : List Deed} (step : Step site settings root stage deeds middle)
    (noFile : ∀ url state, ¬ stage.At url state) : middle.state.skips = stage.state.skips := by
  rw [step.skips patient]
  cases mark : stage.mark? settings with
  | none => rfl
  | some skipped =>
    obtain ⟨url, at_, _⟩ := Stage.mark?_eq_some mark
    exact absurd at_ (noFile url stage.state)

/-- A job with a limit is aborted when so many files in a row are skipped, and only then. It ends at
the last file of the first such stretch; up to there it does to servers and files what the job
without a limit does, in the same order, and nothing afterwards. Where there is no such stretch, the
limit makes no difference. A file that is not skipped starts the count again, whether or not it can
be fetched and stored, and nothing but a file changes it. All of this holds also where the job
without a limit would go on for ever. -/
theorem abort_at_first_stretch (site : Site) (settings : DownloadSettings) (root : Url)
    (files : FileSystem) (n : Nat) (small : n < UInt32.size) (text : String)
    (writes : Arguments.WritesLimit n text)
    (reads : settings.skip = (SkipMode.ofValue (some (.str text))).1) :
    let limit := max n 1
    let start := Stage.start root files
    let acts := Stage.acts site settings
    ((∃ report, run? site settings root files = some report ∧ report.outcome = .aborted) ↔
      ∃ passed last, Passes site (steady settings) root start passed last ∧
        HasStretch limit (marks settings passed)) ∧
    (∀ passed last, Passes site (steady settings) root start passed last →
      HasStretch limit (marks settings passed) →
      ∃ done stop, done <+: passed ∧ FirstStretch settings limit done ∧
        Passes site settings root start done stop ∧ stop.Ended ∧ stop.outcome = .aborted ∧
        run? site settings root files = some stop.report) ∧
    ((∀ passed last, Passes site (steady settings) root start passed last →
        ¬ HasStretch limit (marks settings passed)) →
      run? site settings root files = run? site (steady settings) root files) ∧
    (∀ passed stage, Passes site settings root start passed stage →
      (∃ last, Passes site (steady settings) root start passed last ∧
        (stage.aborted = false → last = stage)) ∧
      passed.flatMap acts = passed.flatMap (Stage.acts site (steady settings)) ∧
      stage.state.files = (passed.flatMap acts).foldl Act.perform files ∧
      stage.state.trail.requests = (passed.flatMap acts).filterMap Act.asked? ∧
      (stage.aborted = true ↔ HasStretch limit (marks settings passed)) ∧
      stage.state.skips = trailing (marks settings passed) ∧ stage.state.skips ≤ limit ∧
      limit < UInt32.size) ∧
    (∀ stage deeds middle, Step site settings root stage deeds middle →
      (∀ url state, stage.At url state → ¬ Skips settings url state.files →
        middle.state.skips = 0) ∧
      ((∀ url state, ¬ stage.At url state) → middle.state.skips = stage.state.skips)) ∧
    ∀ finite : site.FinitelyReaches root,
      run? site settings root files = some (run site settings root finite files) ∧
      ∃ passed last, Passes site (steady settings) root start passed last ∧ last.Ended ∧
        run site (steady settings) root finite files = ⟨last.outcome, last.state⟩ ∧
        ((run site settings root finite files).outcome = .aborted ↔
          HasStretch limit (marks settings passed)) := by
  intro limit start acts
  have limited : settings.skip = .abort limit := reads.trans (writes.ofText small)
  have patient := patient_of_limited limited
  have positive : 0 < limit := Nat.lt_of_lt_of_le Nat.zero_lt_one (Nat.le_max_right n 1)
  refine ⟨exists_aborted_iff limited positive,
    fun _ _ steadily => steadily.exists_stop limited positive, run?_eq_steady limited positive,
    ?_, ?_, ?_⟩
  · intro passed stage passes
    obtain ⟨left, asked⟩ := passes.performs
    exact ⟨passes.to_steady limited,
      List.flatMap_congr fun stage _ => (stage.acts_steady patient).symm, left, asked,
      passes.aborted_iff limited positive rfl rfl, passes.skips patient rfl,
      (passes.skips_le limited positive rfl).1, Nat.max_lt.mpr ⟨small, by decide⟩⟩
  · intro stage deeds middle step
    exact ⟨fun url state at_ tries => step.skips_of_tried patient at_ tries,
      step.skips_of_noFile patient⟩
  · intro finite
    have ran : run? site settings root files = some (run site settings root finite files) :=
      (Option.some_get _).symm
    obtain ⟨passed, last, passes, ended, answer⟩ :
        ∃ passed last, Passes site (steady settings) root start passed last ∧ last.Ended ∧
          run site (steady settings) root finite files = ⟨last.outcome, last.state⟩ :=
      exists_passes_run finite files
    exact ⟨ran, passed, last, passes, ended, answer,
      passes.aborted_iff_of_ended limited positive ended ran⟩

end Download

namespace Registry

/-- A file that is there already. -/
def storedPhoto : FileSystem where
  nodes := [(["f.jpg"], .file (Text.Utf8.encode "F".toList))]

theorem abort_at_first_stretch_photo :
    let settings : DownloadSettings := { skip := .abort 1 }
    let site := standard.siteBy ({} : Web).get
    let root := cyclicUrl "f.jpg"
    0 < UInt32.size ∧ Arguments.WritesLimit 0 "abort:0" ∧
    settings.skip = (SkipMode.ofValue (some (.str "abort:0"))).1 ∧
    (∃ report, Download.run? site settings root storedPhoto = some report ∧
      report.outcome = .aborted) ∧
    ∃ passed last, Download.Passes site (Download.steady settings) root
        (.start root storedPhoto) passed last ∧
      Download.HasStretch 1 (Download.marks settings passed) := by
  intro settings site root
  have writes : Arguments.WritesLimit 0 "abort:0" := Or.inl (by decide +kernel)
  have reads : settings.skip = (SkipMode.ofValue (some (.str "abort:0"))).1 := by decide +kernel
  have itself : site.entries root = [.file root] := by decide +kernel
  obtain ⟨_, passes⟩ := Download.exists_passes_direct itself storedPhoto
  have ran : ∃ report, Download.run? site settings root storedPhoto = some report ∧
      report.outcome = .aborted :=
    ⟨_, passes.run?_eq (Or.inl (by decide +kernel)), by decide +kernel⟩
  obtain ⟨aborts, _⟩ := Download.abort_at_first_stretch site settings root storedPhoto 0 (by decide)
    "abort:0" writes reads
  exact ⟨by decide, writes, reads, ran, aborts.mp ran⟩

end Registry
end BatchFetch
