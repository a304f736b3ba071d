import BatchFetch.Text.Utf8
import Mathlib.Data.List.Basic
import Mathlib.Tactic.SplitIfs

namespace BatchFetch.Text.Utf8

theorem within_iff {low high : Nat} {b : UInt8} :
    within low high b = true ↔ low ≤ b.toNat ∧ b.toNat ≤ high := by
  rw [within, Bool.and_eq_true, decide_eq_true_iff, decide_eq_true_iff]

/-- Continuation bytes are read one after the other; only the first has a range of its own. -/
theorem continuation_succ_iff {count low high bits taken value n : Nat} {bytes : Bytes} :
    continuation (count + 1) low high bits taken bytes = (value, n, true) ↔
      ∃ b rest, bytes = b :: rest ∧ (low ≤ b.toNat ∧ b.toNat ≤ high) ∧
        continuation count 0x80 0xBF (bits * 64 + (b.toNat - 0x80)) (taken + 1) rest =
          (value, n, true) := by
  cases bytes with
  | nil => simp [continuation]
  | cons b rest =>
    rw [continuation]
    by_cases fits : within low high b = true
    · rw [if_pos fits]
      constructor
      · exact fun read => ⟨b, rest, rfl, within_iff.mp fits, read⟩
      · rintro ⟨_, _, same, _, read⟩
        cases same
        exact read
    · rw [if_neg fits]
      constructor
      · exact fun read => absurd (congrArg (·.2.2) read) Bool.false_ne_true
      · rintro ⟨_, _, same, range, _⟩
        cases same
        exact absurd (within_iff.mpr range) fits

theorem continuation_zero_iff {low high bits taken value n : Nat} {bytes : Bytes} :
    continuation 0 low high bits taken bytes = (value, n, true) ↔ value = bits ∧ n = taken := by
  simp only [continuation, Prod.mk.injEq, and_true]
  exact ⟨fun ⟨a, b⟩ => ⟨a.symm, b.symm⟩, fun ⟨a, b⟩ => ⟨a.symm, b.symm⟩⟩

theorem first_eq_some_iff {b : UInt8} {rest : Bytes} {c : Char} {n : Nat} :
    first b rest = (some c, n + 1) ↔ ∃ l value, lead? b = some l ∧
      continuation l.following l.low l.high l.bits 0 rest = (value, n, true) ∧
      Char.ofNat value = c := by
  unfold first
  cases lead? b with
  | none => simp
  | some l =>
    rcases read : continuation l.following l.low l.high l.bits 0 rest with ⟨value, taken, fits⟩
    cases fits <;> simp [read, and_assoc, and_comm]

/-- A lead byte that contributes `bits` can be followed by `count` bytes, the first of which is `x`:
neither is the character written with too many bytes, nor is it a surrogate or too large. -/
def Leads (b : UInt8) (count bits x : Nat) : Prop :=
  (count = 0 ∧ b.toNat = bits ∧ bits < 0x80) ∨
  (count = 1 ∧ b.toNat = bits + 0xC0 ∧ 2 ≤ bits ∧ bits < 32 ∧ 0x80 ≤ x ∧ x ≤ 0xBF) ∨
  (count = 2 ∧ b.toNat = bits + 0xE0 ∧ bits < 16 ∧ 0x80 ≤ x ∧ x ≤ 0xBF ∧
    (bits = 0 → 0xA0 ≤ x) ∧ (bits = 13 → x ≤ 0x9F)) ∨
  (count = 3 ∧ b.toNat = bits + 0xF0 ∧ bits < 5 ∧ 0x80 ≤ x ∧ x ≤ 0xBF ∧
    (bits = 0 → 0x90 ≤ x) ∧ (bits = 4 → x ≤ 0x8F))

theorem leads_iff {b : UInt8} {count bits x : Nat} :
    Leads b count bits x ↔ ∃ l, lead? b = some l ∧ l.following = count ∧ l.bits = bits ∧
      (count = 0 ∨ (l.low ≤ x ∧ x ≤ l.high)) := by
  unfold Leads lead?
  simp only
  repeat' split
  all_goals simp only [Option.some.injEq, exists_eq_left', reduceCtorEq, false_and, exists_false]
  all_goals grind

/-- The bytes of a character as numbers. -/
def units (v : Nat) : List Nat :=
  if v ≤ 0x7F then [v]
  else if v ≤ 0x7FF then [v / 64 + 0xC0, v % 64 + 0x80]
  else if v ≤ 0xFFFF then [v / 4096 + 0xE0, v / 64 % 64 + 0x80, v % 64 + 0x80]
  else [v / 262144 + 0xF0, v / 4096 % 64 + 0x80, v / 64 % 64 + 0x80, v % 64 + 0x80]

theorem units_of_two {a x : Nat} (low : 2 ≤ a) (high : a < 32) (rangeX : x < 64) :
    units (a * 64 + x) = [a + 0xC0, x + 0x80] := by
  rw [units, if_neg (by omega), if_pos (by omega)]
  simp only [List.cons.injEq, and_true]
  omega

theorem units_of_three {a x y : Nat} (low : 0x20 ≤ a * 64 + x) (high : a < 16) (rangeX : x < 64)
    (rangeY : y < 64) :
    units ((a * 64 + x) * 64 + y) = [a + 0xE0, x + 0x80, y + 0x80] := by
  rw [units, if_neg (by omega), if_neg (by omega), if_pos (by omega)]
  simp only [List.cons.injEq, and_true]
  omega

theorem units_of_four {a x y z : Nat} (low : 0x10 ≤ a * 64 + x) (rangeX : x < 64)
    (rangeY : y < 64) (rangeZ : z < 64) :
    units (((a * 64 + x) * 64 + y) * 64 + z) = [a + 0xF0, x + 0x80, y + 0x80, z + 0x80] := by
  rw [units, if_neg (by omega), if_neg (by omega), if_neg (by omega)]
  simp only [List.cons.injEq, and_true]
  omega

theorem map_toNat_encodeChar (c : Char) :
    (String.utf8EncodeChar c).map UInt8.toNat = units c.toNat := by
  have bound : c.toNat < 0x110000 := by
    rcases c.valid with low | high
    · exact Nat.lt_trans low (by decide)
    · exact high.2
  rw [units]
  simp only [String.utf8EncodeChar, Char.toNat_val]
  split_ifs
  all_goals simp only [List.map_cons, List.map_nil, UInt8.toNat_ofNat']
  all_goals grind

theorem encodeChar_eq_iff {c : Char} {bytes : Bytes} :
    String.utf8EncodeChar c = bytes ↔ bytes.map UInt8.toNat = units c.toNat := by
  rw [← map_toNat_encodeChar, (List.map_injective_iff.mpr fun _ _ => UInt8.toNat_inj.mp).eq_iff,
    eq_comm]

theorem toNat_ofNat_of_valid {v : Nat} (valid : v.isValidChar) : (Char.ofNat v).toNat = v := by
  rw [Char.ofNat, dif_pos valid]
  rfl

/-- The bytes of a character are told by its number. -/
theorem encodeChar_ofNat {v : Nat} (valid : v.isValidChar) {bytes : Bytes}
    (same : bytes.map UInt8.toNat = units v) : String.utf8EncodeChar (Char.ofNat v) = bytes := by
  rw [encodeChar_eq_iff, toNat_ofNat_of_valid valid, same]

/-- What is read as a character is how the character is written. -/
theorem encodeChar_of_first {b : UInt8} {rest : Bytes} {c : Char} {n : Nat}
    (found : first b rest = (some c, n + 1)) :
    ∃ tail after, String.utf8EncodeChar c = b :: tail ∧ tail.length = n ∧ rest = tail ++ after := by
  obtain ⟨l, value, announced, read, rfl⟩ := first_eq_some_iff.mp found
  cases count : l.following with
  | zero =>
    have leads : Leads b 0 l.bits 0 := leads_iff.mpr ⟨l, announced, count, rfl, Or.inl rfl⟩
    rw [count] at read
    obtain ⟨bits, taken⟩ := continuation_zero_iff.mp read
    refine ⟨[], rest, encodeChar_ofNat ?_ ?_, by simp [taken], rfl⟩
    · grind [Leads]
    · grind [Leads, units]
  | succ k =>
    rw [count] at read
    obtain ⟨b₁, after, rfl, range, read⟩ := continuation_succ_iff.mp read
    have leads : Leads b (k + 1) l.bits b₁.toNat :=
      leads_iff.mpr ⟨l, announced, count, rfl, Or.inr range⟩
    simp only [Leads, Nat.add_eq_zero_iff, Nat.one_ne_zero, and_false, false_and, false_or] at leads
    rcases leads with ⟨one, lead, low, high, range⟩ | ⟨two, lead, high, low₁, high₁, short, surrogate⟩ |
      ⟨three, lead, high, low₁, high₁, short, large⟩
    · obtain rfl : k = 0 := by omega
      obtain ⟨bits, taken⟩ := continuation_zero_iff.mp read
      refine ⟨[b₁], after, encodeChar_ofNat ?_ ?_, by simp [taken], rfl⟩
      · left
        omega
      · rw [bits, units_of_two low high (by omega)]
        simp only [List.map_cons, List.map_nil, List.cons.injEq, and_true]
        omega
    · obtain rfl : k = 1 := by omega
      obtain ⟨b₂, after, rfl, range₂, read⟩ := continuation_succ_iff.mp read
      obtain ⟨bits, taken⟩ := continuation_zero_iff.mp read
      refine ⟨[b₁, b₂], after, encodeChar_ofNat ?_ ?_, by simp [taken], rfl⟩
      · unfold Nat.isValidChar
        omega
      · rw [bits, units_of_three (by omega) high (by omega) (by omega)]
        simp only [List.map_cons, List.map_nil, List.cons.injEq, and_true]
        omega
    · obtain rfl : k = 2 := by omega
      obtain ⟨b₂, after, rfl, range₂, read⟩ := continuation_succ_iff.mp read
      obtain ⟨b₃, after, rfl, range₃, read⟩ := continuation_succ_iff.mp read
      obtain ⟨bits, taken⟩ := continuation_zero_iff.mp read
      refine ⟨[b₁, b₂, b₃], after, encodeChar_ofNat ?_ ?_, by simp [taken], rfl⟩
      · unfold Nat.isValidChar
        omega
      · rw [bits, units_of_four (by omega) (by omega) (by omega) (by omega)]
        simp only [List.map_cons, List.map_nil, List.cons.injEq, and_true]
        omega

theorem first_of_leads {b : UInt8} {count bits x : Nat} {c : Char} {bytes : Bytes}
    (leads : Leads b count bits x)
    (read : ∀ low high, count = 0 ∨ (low ≤ x ∧ x ≤ high) →
      continuation count low high bits 0 bytes = (c.toNat, count, true)) :
    first b bytes = (some c, count + 1) := by
  obtain ⟨l, announced, rfl, rfl, range⟩ := leads_iff.mp leads
  exact first_eq_some_iff.mpr ⟨l, c.toNat, announced, read l.low l.high range, c.ofNat_toNat⟩

/-- What a character is written as is read as that character. -/
theorem first_of_encodeChar {b : UInt8} {tail : Bytes} {c : Char}
    (written : String.utf8EncodeChar c = b :: tail) (after : Bytes) :
    first b (tail ++ after) = (some c, tail.length + 1) := by
  have same := encodeChar_eq_iff.mp written
  have valid : c.toNat < 0xD800 ∨ 0xDFFF < c.toNat ∧ c.toNat < 0x110000 := c.valid
  rw [List.map_cons, units] at same
  split_ifs at same with one two three
  all_goals obtain ⟨lead, same⟩ := List.cons.inj same
  · rw [List.map_eq_nil_iff.mp same]
    have leads : Leads b 0 c.toNat 0 := Or.inl ⟨rfl, lead, by omega⟩
    exact first_of_leads leads fun low high _ => rfl
  · obtain ⟨b₁, _, rfl, next, same⟩ := List.map_eq_cons_iff.mp same
    rw [List.map_eq_nil_iff.mp same]
    have leads : Leads b 1 (c.toNat / 64) b₁.toNat :=
      Or.inr (Or.inl ⟨rfl, lead, by omega, by omega, by omega, by omega⟩)
    refine first_of_leads leads fun low high range => ?_
    exact continuation_succ_iff.mpr ⟨b₁, after, rfl, range.resolve_left (by simp),
      continuation_zero_iff.mpr ⟨by omega, rfl⟩⟩
  · obtain ⟨b₁, _, rfl, next₁, same⟩ := List.map_eq_cons_iff.mp same
    obtain ⟨b₂, _, rfl, next₂, same⟩ := List.map_eq_cons_iff.mp same
    rw [List.map_eq_nil_iff.mp same]
    have leads : Leads b 2 (c.toNat / 4096) b₁.toNat :=
      Or.inr (Or.inr (Or.inl ⟨rfl, lead, by omega, by omega, by omega, by omega, by omega⟩))
    refine first_of_leads leads fun low high range => ?_
    exact continuation_succ_iff.mpr ⟨b₁, b₂ :: after, rfl, range.resolve_left (by simp),
      continuation_succ_iff.mpr ⟨b₂, after, rfl, by omega,
        continuation_zero_iff.mpr ⟨by omega, rfl⟩⟩⟩
  · obtain ⟨b₁, _, rfl, next₁, same⟩ := List.map_eq_cons_iff.mp same
    obtain ⟨b₂, _, rfl, next₂, same⟩ := List.map_eq_cons_iff.mp same
    obtain ⟨b₃, _, rfl, next₃, same⟩ := List.map_eq_cons_iff.mp same
    rw [List.map_eq_nil_iff.mp same]
    have leads : Leads b 3 (c.toNat / 262144) b₁.toNat :=
      Or.inr (Or.inr (Or.inr ⟨rfl, lead, by omega, by omega, by omega, by omega, by omega⟩))
    refine first_of_leads leads fun low high range => ?_
    exact continuation_succ_iff.mpr ⟨b₁, b₂ :: b₃ :: after, rfl, range.resolve_left (by simp),
      continuation_succ_iff.mpr ⟨b₂, b₃ :: after, rfl, by omega,
        continuation_succ_iff.mpr ⟨b₃, after, rfl, by omega,
          continuation_zero_iff.mpr ⟨by omega, rfl⟩⟩⟩⟩

theorem exists_encodeChar (c : Char) : ∃ b tail, String.utf8EncodeChar c = b :: tail := by
  have same := map_toNat_encodeChar c
  cases written : String.utf8EncodeChar c with
  | nil =>
    rw [written, units] at same
    split_ifs at same <;> cases same
  | cons b tail => exact ⟨b, tail, rfl⟩

theorem encode_cons (c : Char) (cs : List Char) :
    encode (c :: cs) = String.utf8EncodeChar c ++ encode cs := rfl

/-- The well-formed byte sequences are those that characters are written as. -/
theorem decode?_eq_some_iff {bytes : Bytes} {cs : List Char} :
    decode? bytes = some cs ↔ bytes = encode cs := by
  constructor
  · intro decoded
    fun_induction decode? bytes generalizing cs with
    | case1 =>
      cases decoded
      rfl
    | case2 => cases decoded
    | case3 b rest c n found ih =>
      obtain ⟨more, decodedRest, rfl⟩ := Option.map_eq_some_iff.mp decoded
      have positive := one_le_first b rest
      rw [found] at positive
      obtain ⟨m, rfl⟩ := Nat.exists_eq_add_of_le' positive
      obtain ⟨tail, after, written, length, rfl⟩ := encodeChar_of_first found
      rw [Nat.add_sub_cancel, ← length, List.drop_left] at ih decodedRest
      rw [encode_cons, written, ← ih decodedRest, List.cons_append]
  · rintro rfl
    induction cs with
    | nil => rw [encode, List.flatMap_nil, decode?]
    | cons c cs ih =>
      obtain ⟨b, tail, written⟩ := exists_encodeChar c
      rw [encode_cons, written, List.cons_append, decode?, first_of_encodeChar written]
      simp only [Nat.add_sub_cancel, List.drop_left, ih, Option.map_some]

/-- A byte of ASCII is a character of its own. -/
theorem eq_of_mem_encodeChar {c other : Char} {b : UInt8} (ascii : b.toNat < 0x80)
    (same : c.toNat = b.toNat) (member : b ∈ String.utf8EncodeChar other) : other = c := by
  have unit : b.toNat ∈ units other.toNat := by
    rw [← map_toNat_encodeChar]
    exact List.mem_map_of_mem member
  refine Char.toNat_inj.mp (Eq.trans ?_ same.symm)
  unfold units at unit
  split_ifs at unit <;> simp only [List.mem_cons, List.not_mem_nil, or_false] at unit <;> omega

theorem mem_of_mem_encode {c : Char} {b : UInt8} {cs : List Char} (ascii : b.toNat < 0x80)
    (same : c.toNat = b.toNat) (member : b ∈ encode cs) : c ∈ cs := by
  obtain ⟨other, inside, unit⟩ := List.mem_flatMap.mp member
  exact eq_of_mem_encodeChar ascii same unit ▸ inside

theorem getLast?_of_encode {c : Char} {b : UInt8} {cs : List Char} (ascii : b.toNat < 0x80)
    (same : c.toNat = b.toNat) (last : (encode cs).getLast? = some b) : cs.getLast? = some c := by
  rcases List.eq_nil_or_concat cs with rfl | ⟨before, other, rfl⟩
  · cases last
  · rw [List.concat_eq_append] at last ⊢
    obtain ⟨lead, tail, written⟩ := exists_encodeChar other
    have unit : b ∈ String.utf8EncodeChar other := by
      rw [encode, List.flatMap_append, List.flatMap_singleton, List.getLast?_append] at last
      rw [written, List.getLast?_cons, Option.some_or, ← List.getLast?_cons, ← written] at last
      exact List.mem_of_getLast? last
    rw [List.getLast?_append, List.getLast?_singleton, Option.some_or,
      eq_of_mem_encodeChar ascii same unit]

/-- The bytes are the encoding of some characters. -/
def IsWellFormed (bytes : Bytes) : Prop :=
  ∃ cs, bytes = encode cs

theorem isWellFormed_iff {bytes : Bytes} : IsWellFormed bytes ↔ (decode? bytes).isSome := by
  simp only [IsWellFormed, Option.isSome_iff_exists, decode?_eq_some_iff]

instance (bytes : Bytes) : Decidable (IsWellFormed bytes) :=
  decidable_of_iff _ isWellFormed_iff.symm

end BatchFetch.Text.Utf8
