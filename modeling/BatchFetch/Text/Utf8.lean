namespace BatchFetch

/-- File contents and stream contents. -/
abbrev Bytes := List UInt8

namespace Text.Utf8

def encode (cs : List Char) : Bytes :=
  cs.flatMap String.utf8EncodeChar

def size : List Char → Nat
  | [] => 0
  | c :: rest => c.utf8Size + size rest

/-- The characters that take up the first `bytes` bytes of a text. There are none if the text is
shorter, or if that byte lies inside a character. -/
def front? : Nat → List Char → Option (List Char)
  | 0, _ => some []
  | _ + 1, [] => none
  | bytes + 1, c :: rest =>
    if c.utf8Size ≤ bytes + 1 then (front? (bytes + 1 - c.utf8Size) rest).map (c :: ·) else none

theorem size_append (before after : List Char) : size (before ++ after) = size before + size after := by
  induction before with
  | nil => exact (Nat.zero_add _).symm
  | cons c rest ih => rw [List.cons_append, size, size, ih, Nat.add_assoc]

/-- A text is cut just where one of its fronts ends. -/
theorem front?_eq_some_iff {bytes : Nat} {text front : List Char} :
    front? bytes text = some front ↔ front <+: text ∧ size front = bytes := by
  fun_induction front? bytes text generalizing front with
  | case1 text =>
    cases front with
    | nil => exact iff_of_true rfl ⟨List.nil_prefix, rfl⟩
    | cons c rest =>
      have positive := c.utf8Size_pos
      refine iff_of_false nofun fun ⟨_, empty⟩ => ?_
      rw [size] at empty
      omega
  | case2 bytes =>
    refine iff_of_false nofun fun ⟨inside, long⟩ => ?_
    rw [List.prefix_nil.mp inside] at long
    cases long
  | case3 bytes c rest fits ih =>
    cases front with
    | nil => exact iff_of_false (by simp) nofun
    | cons d front =>
      rw [Option.map_eq_some_iff, List.cons_prefix_cons, size]
      constructor
      · rintro ⟨_, found, equal⟩
        cases equal
        obtain ⟨inside, long⟩ := ih.mp found
        exact ⟨⟨rfl, inside⟩, by omega⟩
      · rintro ⟨⟨rfl, inside⟩, long⟩
        exact ⟨front, ih.mpr ⟨inside, by omega⟩, rfl⟩
  | case4 bytes c rest tooLong =>
    refine iff_of_false nofun fun ⟨inside, long⟩ => ?_
    cases front with
    | nil => cases long
    | cons d front =>
      rw [(List.cons_prefix_cons.mp inside).1, size] at long
      omega

theorem front?_append (before after : List Char) :
    front? (size before) (before ++ after) = some before :=
  front?_eq_some_iff.mpr ⟨List.prefix_append _ _, rfl⟩

-- A cut inside a character, or behind the end, is none.
example : front? 1 ['é'] = none ∧ front? 2 ['é'] = some ['é'] ∧ front? 3 ['é'] = none := by decide

/-- A continuation byte in the range `low` to `high`. -/
def within (low high : Nat) (b : UInt8) : Bool :=
  low ≤ b.toNat && b.toNat ≤ high

/-- What a lead byte announces: how many continuation bytes follow, which range the first of them
has, and the bits that the lead byte contributes. -/
structure Lead where
  following : Nat
  low : Nat
  high : Nat
  bits : Nat

/-- The announcement of a lead byte, if it can start a character. -/
def lead? (b : UInt8) : Option Lead :=
  let n := b.toNat
  if n ≤ 0x7F then some ⟨0, 0x80, 0xBF, n⟩
  else if 0xC2 ≤ n ∧ n ≤ 0xDF then some ⟨1, 0x80, 0xBF, n - 0xC0⟩
  else if n = 0xE0 then some ⟨2, 0xA0, 0xBF, 0⟩
  else if n = 0xED then some ⟨2, 0x80, 0x9F, 13⟩
  else if 0xE1 ≤ n ∧ n ≤ 0xEF then some ⟨2, 0x80, 0xBF, n - 0xE0⟩
  else if n = 0xF0 then some ⟨3, 0x90, 0xBF, 0⟩
  else if 0xF1 ≤ n ∧ n ≤ 0xF3 then some ⟨3, 0x80, 0xBF, n - 0xF0⟩
  else if n = 0xF4 then some ⟨3, 0x80, 0x8F, 4⟩
  else none

/-- Read `count` continuation bytes, the first of which lies between `low` and `high`. The answer
holds the bits read, the number of bytes that fit and whether all of them did. -/
def continuation : Nat → Nat → Nat → Nat → Nat → Bytes → Nat × Nat × Bool
  | 0, _, _, bits, taken, _ => (bits, taken, true)
  | _ + 1, _, _, bits, taken, [] => (bits, taken, false)
  | count + 1, low, high, bits, taken, b :: rest =>
    if within low high b then
      continuation count 0x80 0xBF (bits * 64 + (b.toNat - 0x80)) (taken + 1) rest
    else (bits, taken, false)

/-- The first character of a byte sequence, or the ill-formed stretch at its front, with its
length in bytes. -/
def first (b : UInt8) (rest : Bytes) : Option Char × Nat :=
  match lead? b with
  | none => (none, 1)
  | some l =>
    match continuation l.following l.low l.high l.bits 0 rest with
    | (bits, taken, true) => (some (Char.ofNat bits), taken + 1)
    | (_, taken, false) => (none, taken + 1)

theorem one_le_first (b : UInt8) (rest : Bytes) : 1 ≤ (first b rest).2 := by
  unfold first
  split
  · exact Nat.le_refl 1
  · split <;> exact Nat.le_add_left 1 _

/-- The characters of a well-formed byte sequence. -/
def decode? : Bytes → Option (List Char)
  | [] => some []
  | b :: rest =>
    match first b rest with
    | (none, _) => none
    | (some c, n) => (decode? (rest.drop (n - 1))).map (c :: ·)
  termination_by bytes => bytes.length
  decreasing_by simp only [List.length_drop, List.length_cons]; omega

/-- The characters of a byte sequence, with U+FFFD for each ill-formed stretch. -/
def decodeLossy : Bytes → List Char
  | [] => []
  | b :: rest =>
    match first b rest with
    | (c, n) => c.getD '\uFFFD' :: decodeLossy (rest.drop (n - 1))
  termination_by bytes => bytes.length
  decreasing_by simp only [List.length_drop, List.length_cons]; omega

end Text.Utf8
end BatchFetch
