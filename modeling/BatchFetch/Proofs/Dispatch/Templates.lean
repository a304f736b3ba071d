import BatchFetch.Dispatch.Progress
import BatchFetch.Proofs.Text.Digits
import BatchFetch.Proofs.Text.Refilling

namespace BatchFetch

/-- What the placeholders for numbers in a progress template stand for. -/
def progressNumbers (current total : Nat) : List (List Char × List Char) :=
  [("current".toList, (toString current).toList), ("total".toList, (toString total).toList)]

/-- What the placeholders of a progress template stand for, in the order they are filled in. -/
def progressValues (current total : Nat) (url : String) : List (List Char × List Char) :=
  progressNumbers current total ++ [("url".toList, url.toList)]

theorem isDigit_of_mem_toString {n : Nat} {c : Char} (member : c ∈ (toString n).toList) :
    c.isDigit = true := by
  rw [Text.toList_toString] at member
  exact Nat.isDigit_of_mem_toDigits (by decide) (by decide) member

theorem noBraces_toString (n : Nat) : Text.NoBraces (toString n).toList :=
  ⟨fun member => absurd (isDigit_of_mem_toString member) (by decide),
    fun member => absurd (isDigit_of_mem_toString member) (by decide)⟩

/-- The digits of a number are no part of a name without digits. -/
theorem exists_digit_not_mem (n : Nat) {name : List Char} (letters : name.any Char.isDigit = false) :
    ∃ c ∈ (toString n).toList, c ∉ name := by
  obtain ⟨c, member⟩ := List.exists_mem_of_ne_nil (Nat.toDigits 10 n) Nat.toDigits_ne_nil
  rw [← Text.toList_toString] at member
  exact ⟨c, member, fun inside => List.any_eq_false.mp letters c inside (isDigit_of_mem_toString member)⟩

theorem areValues_progressValues (current total : Nat) (url : String) :
    Text.AreValues (progressValues current total url) :=
  have names : (progressValues current total url).map Prod.fst =
    ["current", "total", "url"].map String.toList := rfl
  Text.areValues_of_names names (by decide) (by decide)

theorem exists_number (current total : Nat) :
    ∀ entry ∈ progressNumbers current total, ∃ n : Nat, entry.2 = (toString n).toList := by
  rintro entry (_ | ⟨_, last⟩)
  · exact ⟨current, rfl⟩
  · exact List.mem_singleton.mp last ▸ ⟨total, rfl⟩

/-- Numbers that are filled in do not complete the placeholder of a name that comes later. -/
theorem replaceAll_fillIn_numbers {values : List (List Char × List Char)} {name value : List Char}
    (areValues : Text.AreValues (values ++ [(name, value)]))
    (letters : name.any Char.isDigit = false)
    (numbers : ∀ entry ∈ values, ∃ n : Nat, entry.2 = (toString n).toList) (text : List Char) :
    Text.replaceAll (Text.braced name) value (Text.fillIn values text) =
      Text.fillIn (values ++ [(name, value)]) text := by
  have bare : ∀ entry ∈ values, Text.NoBraces entry.2 := by
    intro entry member
    obtain ⟨n, whole⟩ := numbers entry member
    exact whole ▸ noBraces_toString n
  have strange : ∀ entry ∈ values, ∃ c ∈ entry.2, c ∉ name := by
    intro entry member
    obtain ⟨n, whole⟩ := numbers entry member
    exact whole ▸ exists_digit_not_mem n letters
  exact (areValues.comesAfter bare).replaceAll_fillIn value
    (Text.not_completes_of_strange areValues.of_append strange)

theorem toList_renderProgress (template : String) (current total : Nat) (url : String) :
    (renderProgress template current total url).toList =
      Text.fillIn (progressValues current total url) template.toList := by
  have areValues := areValues_progressValues current total url
  have both : Text.AreValues ([("current".toList, (toString current).toList)] ++
    [("total".toList, (toString total).toList)]) := areValues.of_append
  have first : ∀ entry ∈ [("current".toList, (toString current).toList)],
      ∃ n : Nat, entry.2 = (toString n).toList := fun entry member =>
    exists_number current total entry (List.mem_cons.mpr (Or.inl (List.mem_singleton.mp member)))
  have position : Text.replaceAll (Text.braced "current".toList) (toString current).toList
      template.toList = Text.fillIn [("current".toList, (toString current).toList)] template.toList :=
    Text.replaceAll_eq_fillIn (by decide) _ _
  have number := replaceAll_fillIn_numbers both (by decide) first template.toList
  have target := replaceAll_fillIn_numbers areValues (by decide) (exists_number current total)
    template.toList
  calc
    _ = Text.replaceAll (Text.braced "url".toList) url.toList
          (Text.replaceAll (Text.braced "total".toList) (toString total).toList
            (Text.replaceAll (Text.braced "current".toList) (toString current).toList
              template.toList)) := by
      simp only [renderProgress, Text.replaced, String.toList_ofList]
      rfl
    _ = Text.replaceAll (Text.braced "url".toList) url.toList
          (Text.fillIn (progressNumbers current total) template.toList) := by
      rw [position, number]
      rfl
    _ = Text.fillIn (progressValues current total url) template.toList := target

/-- A progress line is its template with every placeholder filled in, by one pass from left to right:
what is put in for a placeholder, be it a target with further placeholders in it, stays, and so does
all text between the placeholders. -/
theorem renderProgress_single_pass (template : String) (current total : Nat) (url : String) :
    renderProgress template current total url =
        String.ofList (Text.fillIn (progressValues current total url) template.toList) ∧
      (∀ before name value after, (name, value) ∈ progressValues current total url →
        Text.fillIn (progressValues current total url) (before ++ Text.braced name ++ after) =
          Text.fillIn (progressValues current total url) before ++ value ++
            Text.fillIn (progressValues current total url) after) ∧
      ∀ text, (∀ entry ∈ progressValues current total url, ¬ Text.braced entry.1 <:+: text) →
        Text.fillIn (progressValues current total url) text = text := by
  refine ⟨?_, fun before name value after member => ?_, fun text free => Text.fillIn_eq_self free⟩
  · rw [← toList_renderProgress, String.ofList_toList]
  · exact (areValues_progressValues current total url).fillIn_around member before after

example : renderProgress "\x7burl\x7d (\x7bcurrent\x7d of \x7btotal\x7d)" 3 9 "\x7bcurrent\x7d" =
    "\x7bcurrent\x7d (3 of 9)" := by
  decide +kernel

end BatchFetch
