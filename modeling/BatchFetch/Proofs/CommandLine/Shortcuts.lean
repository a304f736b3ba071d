import BatchFetch.CommandLine.Reader
import BatchFetch.Proofs.Results
import BatchFetch.Proofs.Store.LookUp
import BatchFetch.Session.Configuration

namespace BatchFetch

namespace CommandLine

/-- The limits on skipped files that are given have 32 bits. -/
def SmallLimits (arguments : Arguments) : Prop :=
  ∀ n, arguments.abort = some n ∨ arguments.terminate = some n → n < UInt32.size

theorem count_lt {value : String} {n : Nat} (read : count value = .ok n) : n < UInt32.size := by
  rw [count] at read
  dsimp only at read
  split at read
  · split_ifs at read with small
    cases read
    rw [Bool.and_eq_true, decide_eq_true_iff] at small
    exact small.1
  · cases read

theorem once_eq_ok {α : Type} {old after : Option α} {new : Except Refusal α}
    (set : once old new = .ok after) : ∃ value, new = .ok value ∧ after = some value := by
  rw [once] at set
  split_ifs at set
  obtain ⟨value, given, rfl⟩ := ok_of_map set
  exact ⟨value, given, rfl⟩

theorem takeValue_smallLimits {arguments after : Arguments} {option : ValueOption} {value : String}
    (taken : takeValue arguments option value = .ok after) (small : SmallLimits arguments) :
    SmallLimits after := by
  cases option with
  | inputFile =>
    cases taken
    exact small
  | setting =>
    rw [takeValue] at taken
    split at taken
    · cases taken
      exact small
    · cases taken
  | destination | filename | config | writeUnsupported | logLevel =>
    obtain ⟨_, _, rfl⟩ := ok_of_map taken
    exact small
  | abort =>
    obtain ⟨_, set, rfl⟩ := ok_of_map taken
    obtain ⟨limit, read, rfl⟩ := once_eq_ok set
    rintro n (new | old)
    · exact Option.some.inj new ▸ count_lt read
    · exact small n (Or.inr old)
  | terminate =>
    obtain ⟨_, set, rfl⟩ := ok_of_map taken
    obtain ⟨limit, read, rfl⟩ := once_eq_ok set
    rintro n (old | new)
    · exact small n (Or.inl old)
    · exact Option.some.inj new ▸ count_lt read

theorem takeFlag_smallLimits {arguments after : Arguments} {flag : Flag}
    (taken : takeFlag arguments flag = .ok after) (small : SmallLimits arguments) :
    SmallLimits after := by
  cases flag with
  | getUrls =>
    cases taken
    exact small
  | ignoreConfig | verbose | quiet =>
    obtain ⟨_, _, rfl⟩ := ok_of_map taken
    exact small
  | help | version => cases taken

theorem take_smallLimits {arguments after : Arguments} {mark : Mark}
    (taken : take arguments mark = .ok after) (small : SmallLimits arguments) :
    SmallLimits after := by
  cases mark with
  | attached option value => exact takeValue_smallLimits taken small
  | spaced option value =>
    cases value with
    | none => cases taken
    | some value => exact takeValue_smallLimits taken small
  | flag flag => exact takeFlag_smallLimits taken small
  | target word =>
    cases taken
    exact small
  | fault reason => cases taken

theorem takeAll_smallLimits {arguments after : Arguments} {marks : List Mark}
    (taken : takeAll arguments marks = .ok after) (small : SmallLimits arguments) :
    SmallLimits after := by
  induction marks generalizing arguments with
  | nil =>
    cases taken
    exact small
  | cons mark rest ih =>
    rw [takeAll] at taken
    split at taken
    · cases taken
    · obtain ⟨middle, now, later⟩ := ok_of_bind taken
      exact ih later (take_smallLimits now small)

/-- A command line that is carried out has at most one limit, of 32 bits. -/
theorem limits_of_parse {words : List String} {arguments : Arguments}
    (parsed : parse words = .ok arguments) :
    SmallLimits arguments ∧ (arguments.abort = none ∨ arguments.terminate = none) := by
  obtain ⟨given, taken, checked⟩ := ok_of_bind parsed
  unfold check at checked
  split_ifs at checked with clash
  cases checked
  refine ⟨takeAll_smallLimits taken fun n asked => ?_, ?_⟩
  · rcases asked with asked | asked <;> cases asked
  · by_contra both
    obtain ⟨abort, terminate⟩ := not_or.mp both
    refine clash ?_
    rw [clashes, Option.isSome_iff_ne_none.mpr abort, Option.isSome_iff_ne_none.mpr terminate]
    rfl

end CommandLine

namespace Arguments

/-- What the options with another name make of a global setting. -/
def shortcut? (arguments : Arguments) (key : String) : Option Json :=
  if key = "base-directory" then arguments.destination.map .str
  else if key = "filename" then arguments.filename.map fun text => .str (filenameTemplate text)
  else if key = "skip" then
    (arguments.terminate.map fun n => .str s!"terminate:{n}").or
      (arguments.abort.map fun n => .str s!"abort:{n}")
  else none

theorem last?_toList {α : Type} (value : Option α) (text : α → String) (name sectionName key : String) :
    Setting.last? (value.map fun x => globalText name (text x)).toList sectionName key =
      if sectionName = globalSection ∧ key = name then value.map fun x => .str (text x) else none := by
  cases value with
  | none =>
    rw [Option.map_none, Option.map_none, ite_self]
    rfl
  | some x => exact Setting.last?_singleton _ sectionName key

/-- A setting that the command line makes under its own name wins over the one under another name. -/
theorem last?_overrides (arguments : Arguments) (sectionName key : String) :
    Setting.last? arguments.overrides sectionName key =
      (Setting.last? arguments.settings sectionName key).or
        (if sectionName = globalSection then arguments.shortcut? key else none) := by
  rw [overrides, Setting.last?_append, Setting.last?_append, Setting.last?_append,
    Setting.last?_append, last?_toList arguments.destination fun dir => dir, last?_toList,
    last?_toList, last?_toList, shortcut?]
  congr 1
  by_cases isGlobal : sectionName = globalSection
  · simp only [isGlobal, true_and, if_true]
    by_cases directory : key = "base-directory"
    · simp [directory]
    by_cases filename : key = "filename"
    · simp [filename]
    by_cases skip : key = "skip" <;> simp [directory, filename, skip]
  · simp [isGlobal]

end Arguments
end BatchFetch
