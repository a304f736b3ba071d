import BatchFetch.Json.Printer
import BatchFetch.Proofs.Text.Blank
import BatchFetch.Proofs.Text.Digits
import Mathlib.Data.List.Basic

namespace BatchFetch

/-- A text without a blank character. -/
def IsVisible (text : List Char) : Prop :=
  ∀ c ∈ text, Text.isBlank c = false

instance (text : List Char) : Decidable (IsVisible text) :=
  decidable_of_iff (text.all fun c => !Text.isBlank c) (by simp [IsVisible])

namespace IsVisible

theorem append {first second : List Char} (visible : IsVisible first) (too : IsVisible second) :
    IsVisible (first ++ second) :=
  List.forall_mem_append.mpr ⟨visible, too⟩

theorem cons {c : Char} {text : List Char} (first : Text.isBlank c = false)
    (visible : IsVisible text) : IsVisible (c :: text) :=
  List.forall_mem_cons.mpr ⟨first, visible⟩

theorem sublist {text part : List Char} (visible : IsVisible text) (sub : part.Sublist text) :
    IsVisible part :=
  fun c member => visible c (sub.subset member)

end IsVisible

/-- A text that holds no line feed and ends with a character that is not blank. -/
structure FillsLine (text : List Char) : Prop where
  oneLine : '\n' ∉ text
  ending : ∃ c, text.getLast? = some c ∧ Text.isBlank c = false

namespace FillsLine

theorem append {before text : List Char} (oneLine : '\n' ∉ before) (fills : FillsLine text) :
    FillsLine (before ++ text) where
  oneLine := by
    rw [List.mem_append]
    exact fun member => member.elim oneLine fills.oneLine
  ending := by
    obtain ⟨c, last, visible⟩ := fills.ending
    exact ⟨c, by rw [List.getLast?_append, last, Option.some_or], visible⟩

theorem cons {c : Char} {text : List Char} (notFeed : c ≠ '\n') (fills : FillsLine text) :
    FillsLine (c :: text) := by
  have before : '\n' ∉ [c] := fun member => notFeed (List.mem_singleton.mp member).symm
  exact append before fills

theorem of_visible {text : List Char} (some : text ≠ [])
    (visible : IsVisible text) : FillsLine text where
  oneLine := fun member => absurd (visible _ member) (by decide)
  ending := ⟨text.getLast some, List.getLast?_eq_some_getLast some,
    visible _ (List.getLast_mem some)⟩

end FillsLine

namespace Json

theorem hexDigit_ne_feed {n : Nat} (small : n < 16) : hexDigit n ≠ '\n' := by
  have every : ∀ n : Fin 16, hexDigit n ≠ '\n' := by decide
  exact every ⟨n, small⟩

theorem feed_not_mem_escaped (c : Char) : '\n' ∉ escaped c := by
  unfold escaped
  split_ifs with quote backslash feed control tab back form low
  · decide
  · decide
  · decide
  · decide
  · decide
  · decide
  · decide
  · have first := hexDigit_ne_feed (n := c.toNat / 16) (by omega)
    have second := hexDigit_ne_feed (n := c.toNat % 16) (by omega)
    simp [first.symm, second.symm]
  · exact fun member => feed (List.mem_singleton.mp member).symm

theorem fillsLine_quoted (s : String) : FillsLine (quoted s) := by
  have closing : FillsLine ['"'] := .of_visible (by decide) (by decide)
  refine .cons (by decide) (.append ?_ closing)
  rw [List.mem_flatMap]
  rintro ⟨c, _, member⟩
  exact feed_not_mem_escaped c member

theorem visible_toDigits (n : Nat) : IsVisible (Nat.toDigits 10 n) := fun _ member =>
  Text.visible_of_isDigit (Nat.isDigit_of_mem_toDigits (by decide) (by decide) member)

theorem visible_replicate (n : Nat) {c : Char} (visible : Text.isBlank c = false) :
    IsVisible (List.replicate n c) :=
  fun _ member => List.eq_of_mem_replicate member ▸ visible

theorem visible_decimalText (d : Binary64.Decimal) : IsVisible (decimalText d) := by
  have digits := visible_toDigits d.digits
  have zeros (n : Nat) : IsVisible (List.replicate n '0') := visible_replicate n (by decide)
  have first (n : Nat) := digits.sublist (List.take_sublist n _)
  have others (n : Nat) := digits.sublist (List.drop_sublist n _)
  unfold decimalText
  simp only
  split
  case isTrue => decide
  split
  case isTrue =>
    refine .append (.append (first _) (zeros _)) (.cons (by decide) ?_)
    split
    · decide
    · exact others _
  split
  case isTrue => exact .append (.cons (by decide) (.cons (by decide) (zeros _))) digits
  case isFalse =>
    refine .append (.append (first 1) ?_) (.cons (by decide) (.cons ?_ (visible_toDigits _)))
    · split
      · decide
      · exact .cons (by decide) (others 1)
    · split <;> decide

theorem visible_number (n : Number) : IsVisible n.text := by
  cases n with
  | int n =>
    rw [Number.text]
    split
    · exact .cons (by decide) (visible_toDigits _)
    · exact visible_toDigits _
  | real x =>
    refine .append ?_ (visible_decimalText _)
    split <;> decide

theorem number_ne_nil (n : Number) : n.text ≠ [] := by
  cases n with
  | int n =>
    rw [Number.text]
    split
    · exact List.cons_ne_nil _ _
    · exact Nat.toDigits_ne_nil
  | real x =>
    refine List.append_ne_nil_of_right_ne_nil _ ?_
    unfold decimalText
    simp only
    split_ifs <;> simp

mutual
theorem fillsLine_text : (x : Json) → FillsLine x.text
  | null => .of_visible (by decide) (by decide)
  | bool true => .of_visible (by decide) (by decide)
  | bool false => .of_visible (by decide) (by decide)
  | num n => .of_visible (number_ne_nil n) (visible_number n)
  | str s => fillsLine_quoted s
  | arr [] => .of_visible (by decide) (by decide)
  | arr (x :: items) =>
    .cons (by decide) (.append (fillsLine_text x).oneLine (fillsLine_textMore items))
  | obj [] => .of_visible (by decide) (by decide)
  | obj ((key, x) :: members) =>
    have member : FillsLine (quoted key ++ ':' :: x.text) :=
      .append (fillsLine_quoted key).oneLine (.cons (by decide) (fillsLine_text x))
    .cons (by decide) (.append member.oneLine (fillsLine_textMembers members))

theorem fillsLine_textMore : (items : List Json) → FillsLine (textMore items)
  | [] => .of_visible (by decide) (by decide)
  | x :: items =>
    .cons (by decide) (.append (fillsLine_text x).oneLine (fillsLine_textMore items))

theorem fillsLine_textMembers : (members : List (String × Json)) → FillsLine (textMembers members)
  | [] => .of_visible (by decide) (by decide)
  | (key, x) :: members =>
    have member : FillsLine (quoted key ++ ':' :: x.text) :=
      .append (fillsLine_quoted key).oneLine (.cons (by decide) (fillsLine_text x))
    .cons (by decide) (.append member.oneLine (fillsLine_textMembers members))
end

theorem visible_of_head? {x : Json} {c : Char} (first : c ∈ x.text.head?) :
    Text.isBlank c = false := by
  rcases x with _ | value | n | s | items | members
  case num => exact visible_number n c (List.mem_of_mem_head? first)
  case bool => cases value <;> cases first <;> decide
  case arr => cases items <;> cases first <;> decide
  case obj => rcases members with _ | ⟨⟨key, value⟩, rest⟩ <;> cases first <;> decide
  all_goals
    cases first
    decide

/-- The text of a value has no blank characters around it. -/
theorem trim_text (x : Json) : Text.trim x.text = x.text := by
  refine Text.trim_eq_self (fun c first => visible_of_head? first) fun c last => ?_
  obtain ⟨other, ending, visible⟩ := (fillsLine_text x).ending
  rw [ending, Option.some.injEq] at last
  rw [← last]
  exact visible

theorem fillsLine_render (x : Json) : FillsLine x.render.toList := by
  rw [render, String.toList_ofList]
  exact fillsLine_text x

end Json
end BatchFetch
