import BatchFetch.Proofs.Results
import BatchFetch.Text.Blank
import BatchFetch.Text.Digits
import Mathlib.Data.List.Basic

namespace BatchFetch.Text

theorem toList_toString (n : Nat) : (toString n).toList = Nat.toDigits 10 n := by
  rw [Nat.toString_eq_ofList_toDigits, String.toList_ofList]

theorem hexValue?_digitChar {digit : Nat} (small : digit < 16) :
    hexValue? digit.digitChar = some digit := by
  have table : ∀ d ∈ List.range 16, hexValue? d.digitChar = some d := by decide +kernel
  exact table digit (List.mem_range.mpr small)

/-- The values of the digits of a number make up that number. -/
theorem exists_values {base : Nat} (some : 1 < base) (most : base ≤ 16) (n : Nat) :
    ∃ values : List Nat, (Nat.toDigits base n).mapM hexValue? = .some values ∧
      (∀ value ∈ values, value < base) ∧ values.foldl (fun n d => n * base + d) 0 = n := by
  induction n using Nat.strongRecOn with
  | _ n ih =>
    rw [Nat.toDigits_eq_if some]
    have low : n % base < base := Nat.mod_lt n (by omega)
    split_ifs with small
    · refine ⟨[n], ?_, ?_, ?_⟩
      · rw [List.mapM_cons, hexValue?_digitChar (by omega), List.mapM_nil]
        rfl
      · intro value member
        exact List.mem_singleton.mp member ▸ small
      · rw [List.foldl_cons, List.foldl_nil, Nat.zero_mul, Nat.zero_add]
    · obtain ⟨values, read, within, whole⟩ := ih (n / base) (Nat.div_lt_self (by omega) some)
      refine ⟨values ++ [n % base], ?_, ?_, ?_⟩
      · rw [List.mapM_append, read, List.mapM_cons, hexValue?_digitChar (by omega), List.mapM_nil]
        rfl
      · intro value member
        rcases List.mem_append.mp member with front | last
        · exact within value front
        · exact List.mem_singleton.mp last ▸ low
      · rw [List.foldl_append, whole, List.foldl_cons, List.foldl_nil, Nat.div_add_mod']

/-- A number is read from its digits. -/
theorem number?_toDigits {base : Nat} (some : 1 < base) (most : base ≤ 16) (n : Nat) :
    number? base (Nat.toDigits base n) = .some n := by
  obtain ⟨values, read, within, whole⟩ := exists_values some most n
  have digits : ¬ (Nat.toDigits base n).isEmpty = true := by
    rw [List.isEmpty_iff]
    exact Nat.toDigits_ne_nil
  have inside : values.all (· < base) = true :=
    List.all_eq_true.mpr fun value member => decide_eq_true (within value member)
  rw [number?, if_neg digits, read, Option.bind_some, if_pos inside, whole]

theorem toDigits_inj {base m n : Nat} (some : 1 < base) (most : base ≤ 16)
    (equal : Nat.toDigits base m = Nat.toDigits base n) : m = n := by
  have read := number?_toDigits some most m
  rw [equal, number?_toDigits some most n] at read
  exact (Option.some.inj read).symm

theorem mem_toDigits {base n : Nat} (some : 1 < base) (most : base ≤ 16) :
    ∀ c ∈ Nat.toDigits base n, c ∈ (List.range 16).map Nat.digitChar := by
  induction n using Nat.strongRecOn with
  | _ n ih =>
    rw [Nat.toDigits_eq_if some]
    have digit {d : Nat} (small : d < 16) : d.digitChar ∈ (List.range 16).map Nat.digitChar :=
      List.mem_map_of_mem (List.mem_range.mpr small)
    have low : n % base < base := Nat.mod_lt n (by omega)
    intro c member
    split_ifs at member with small
    · rw [List.mem_singleton.mp member]
      exact digit (by omega)
    · rcases List.mem_append.mp member with front | last
      · exact ih (n / base) (Nat.div_lt_self (by omega) some) c front
      · rw [List.mem_singleton.mp last]
        exact digit (by omega)

theorem not_mem_toDigits {c : Char} {base n : Nat} (some : 1 < base) (most : base ≤ 16)
    (strange : c ∉ (List.range 16).map Nat.digitChar) : c ∉ Nat.toDigits base n := fun member =>
  strange (mem_toDigits some most c member)

theorem visible_of_isDigit {c : Char} (digit : c.isDigit) : isBlank c = false := by
  simp only [Char.isDigit, Bool.and_eq_true, decide_eq_true_iff] at digit
  have low : 48 ≤ c.toNat := digit.1
  have high : c.toNat ≤ 57 := digit.2
  simp only [isBlank, Bool.or_eq_false_iff, Bool.and_eq_false_iff, decide_eq_false_iff_not,
    beq_eq_false_iff_ne]
  omega

end BatchFetch.Text
