import BatchFetch.Status

namespace BatchFetch.ExitStatus

theorem ext {a b : ExitStatus} (same : a.bits.toBitVec = b.bits.toBitVec) : a = b := by
  cases a
  cases b
  exact congrArg ExitStatus.mk (UInt32.toBitVec_inj.mp same)

theorem bits_union (a b : ExitStatus) :
    (a ||| b).bits.toBitVec = a.bits.toBitVec ||| b.bits.toBitVec := rfl

theorem union_comm (a b : ExitStatus) : a ||| b = b ||| a :=
  ext (BitVec.or_comm _ _)

theorem union_assoc (a b c : ExitStatus) : a ||| b ||| c = a ||| (b ||| c) :=
  ext (BitVec.or_assoc _ _ _)

theorem union_self (a : ExitStatus) : a ||| a = a :=
  ext BitVec.or_self

theorem union_success (a : ExitStatus) : a ||| success = a :=
  ext BitVec.or_zero

theorem success_union (a : ExitStatus) : success ||| a = a :=
  ext BitVec.zero_or

/-- All bits that have a name. -/
def known : ExitStatus := general ||| http ||| missing ||| noHandler

/-- A status of one bit. -/
inductive IsBit : ExitStatus → Prop
  | intro {bit : ExitStatus} (place : Nat) : bit.bits.toBitVec = BitVec.twoPow 32 place →
      place < 32 → IsBit bit

theorem isBit_general : IsBit general := ⟨0, by decide, by decide⟩

theorem isBit_http : IsBit http := ⟨2, by decide, by decide⟩

theorem isBit_missing : IsBit missing := ⟨3, by decide, by decide⟩

theorem isBit_noHandler : IsBit noHandler := ⟨6, by decide, by decide⟩

theorem contains_iff {a part : ExitStatus} :
    a.contains part = true ↔ a.bits.toBitVec &&& part.bits.toBitVec = part.bits.toBitVec := by
  rw [contains, beq_iff_eq, ← UInt32.toBitVec_inj, UInt32.toBitVec_and]

/-- A status contains a single bit when it has a one at the place of that bit. -/
theorem IsBit.exists_place {bit : ExitStatus} (isBit : IsBit bit) :
    ∃ place, ∀ s : ExitStatus, s.contains bit = true ↔ s.bits.toBitVec.getLsbD place = true := by
  obtain ⟨place, same, small⟩ := isBit
  refine ⟨place, fun s => ?_⟩
  rw [contains_iff, same, BitVec.and_twoPow]
  cases s.bits.toBitVec.getLsbD place with
  | true => simp
  | false =>
    simp only [Bool.false_eq_true, if_false, iff_false]
    intro zero
    have differ := congrArg (fun v => v.getLsbD place) zero
    simp [small] at differ

theorem IsBit.contains_union {bit : ExitStatus} (isBit : IsBit bit) (a b : ExitStatus) :
    (a ||| b).contains bit = true ↔ a.contains bit = true ∨ b.contains bit = true := by
  obtain ⟨place, one⟩ := isBit.exists_place
  rw [one, one, one, bits_union, BitVec.getLsbD_or, Bool.or_eq_true]

theorem IsBit.not_success_contains {bit : ExitStatus} (isBit : IsBit bit) :
    ¬ success.contains bit = true := by
  obtain ⟨place, one⟩ := isBit.exists_place
  rw [one]
  show ¬ (0#32).getLsbD place = true
  rw [BitVec.getLsbD_zero]
  exact Bool.false_ne_true

/-- Of single bits, each contains only itself. -/
theorem IsBit.contains_iff_eq {bit other : ExitStatus} (isBit : IsBit bit) (isOther : IsBit other) :
    bit.contains other = true ↔ other = bit := by
  obtain ⟨place, same, _⟩ := isBit
  obtain ⟨otherPlace, otherSame, small⟩ := isOther
  by_cases equal : place = otherPlace
  · have identical : other = bit := ext (by rw [otherSame, same, equal])
    rw [contains_iff, identical]
    exact iff_of_true BitVec.and_self rfl
  · have differ : ∀ a, a &&& BitVec.twoPow 32 place ≠ BitVec.twoPow 32 otherPlace := by
      intro a absurdity
      have one := congrArg (fun v => v.getLsbD otherPlace) absurdity
      simp [small] at one
      exact equal one.2.symm
    rw [contains_iff, same, otherSame]
    refine iff_of_false ?_ ?_
    · rw [BitVec.and_comm]
      exact differ _
    · rintro rfl
      rw [otherSame] at same
      exact differ _ ((BitVec.and_self).trans same.symm)

theorem contains_iff_union {a part : ExitStatus} : a.contains part = true ↔ a ||| part = a := by
  rw [contains_iff]
  constructor
  · intro inside
    refine ext ?_
    rw [bits_union, ← inside]
    ext place
    simp only [BitVec.getElem_or, BitVec.getElem_and]
    cases a.bits.toBitVec[place] <;> cases part.bits.toBitVec[place] <;> rfl
  · intro absorbed
    rw [← absorbed, bits_union]
    ext place
    simp only [BitVec.getElem_or, BitVec.getElem_and]
    cases a.bits.toBitVec[place] <;> cases part.bits.toBitVec[place] <;> rfl

theorem contains_success (a : ExitStatus) : a.contains success = true :=
  contains_iff_union.mpr (union_success a)

theorem contains_trans {a b c : ExitStatus} (first : a.contains b = true)
    (second : b.contains c = true) : a.contains c = true := by
  rw [contains_iff_union] at first second ⊢
  rw [← first, union_assoc, second]

theorem contains_union_left (a b : ExitStatus) : (a ||| b).contains a = true := by
  rw [contains_iff_union, union_comm, ← union_assoc, union_self]

theorem contains_union_right (a b : ExitStatus) : (a ||| b).contains b = true := by
  rw [contains_iff_union, union_assoc, union_self]

theorem contains_of_union {a b part : ExitStatus} :
    part.contains (a ||| b) = true ↔ part.contains a = true ∧ part.contains b = true := by
  constructor
  · intro both
    exact ⟨contains_trans both (contains_union_left a b), contains_trans both (contains_union_right a b)⟩
  · rintro ⟨first, second⟩
    rw [contains_iff_union] at first second ⊢
    rw [← union_assoc, first, second]

theorem contains_antisymm {a b : ExitStatus} (first : a.contains b = true)
    (second : b.contains a = true) : a = b := by
  rw [contains_iff_union] at first second
  rw [← first, union_comm, second]

theorem eq_success_of_union {a b : ExitStatus} (clean : a ||| b = .success) :
    a = .success ∧ b = .success := by
  have both : ExitStatus.success.contains (a ||| b) = true := by
    rw [clean]
    exact contains_success _
  obtain ⟨first, second⟩ := contains_of_union.mp both
  exact ⟨contains_antisymm (contains_success a) first, contains_antisymm (contains_success b) second⟩

/-- No bit with a name lies above the low byte. -/
theorem code_of_known {status : ExitStatus} (inside : known.contains status = true) :
    status.code = status.bits.toNat := by
  rw [contains_iff] at inside
  have low : known.bits.toBitVec &&& 0xFF = known.bits.toBitVec := by decide
  have kept : status.bits.toBitVec &&& 0xFF = status.bits.toBitVec := by
    calc status.bits.toBitVec &&& 0xFF
        = known.bits.toBitVec &&& status.bits.toBitVec &&& 0xFF := by rw [inside]
      _ = known.bits.toBitVec &&& 0xFF &&& status.bits.toBitVec := by
          rw [BitVec.and_assoc, BitVec.and_comm status.bits.toBitVec, ← BitVec.and_assoc]
      _ = status.bits.toBitVec := by rw [low, inside]
  exact congrArg BitVec.toNat kept

theorem toNat_bits_eq_zero_iff {status : ExitStatus} :
    status.bits.toNat = 0 ↔ status = .success := by
  constructor
  · intro zero
    exact congrArg ExitStatus.mk (UInt32.toNat_inj.mp zero)
  · rintro rfl
    rfl

/-- All that several failures contribute. -/
def all (statuses : List ExitStatus) : ExitStatus :=
  statuses.foldr (· ||| ·) success

theorem all_cons (status : ExitStatus) (rest : List ExitStatus) :
    all (status :: rest) = status ||| all rest := rfl

theorem contains_all_iff {part : ExitStatus} {statuses : List ExitStatus} :
    part.contains (all statuses) = true ↔ ∀ status ∈ statuses, part.contains status = true := by
  induction statuses with
  | nil => exact ⟨fun _ _ absent => absurd absent List.not_mem_nil, fun _ => contains_success part⟩
  | cons status rest ih => rw [all_cons, contains_of_union, ih, List.forall_mem_cons]

theorem all_contains_of_mem {statuses : List ExitStatus} {status : ExitStatus}
    (member : status ∈ statuses) : (all statuses).contains status = true :=
  contains_all_iff.mp (contains_iff_union.mpr (union_self _)) status member

theorem all_eq_success_iff {statuses : List ExitStatus} :
    all statuses = .success ↔ ∀ status ∈ statuses, status = .success := by
  induction statuses with
  | nil => exact iff_of_true rfl fun _ absent => absurd absent List.not_mem_nil
  | cons status rest ih =>
    rw [all_cons, List.forall_mem_cons, ← ih]
    constructor
    · exact eq_success_of_union
    · rintro ⟨first, later⟩
      rw [first, later, union_success]

/-- Statuses that are combined from the first to the last. -/
theorem foldl_union (statuses : List ExitStatus) (status : ExitStatus) :
    statuses.foldl (· ||| ·) status = status ||| all statuses := by
  induction statuses generalizing status with
  | nil => exact (union_success status).symm
  | cons next rest ih => rw [List.foldl_cons, ih, all_cons, union_assoc]

theorem IsBit.contains_all {bit : ExitStatus} (isBit : IsBit bit) {statuses : List ExitStatus} :
    (all statuses).contains bit = true ↔ ∃ status ∈ statuses, status.contains bit = true := by
  induction statuses with
  | nil =>
    constructor
    · exact fun inside => absurd inside isBit.not_success_contains
    · rintro ⟨_, absent, _⟩
      cases absent
  | cons status rest ih =>
    rw [all_cons, isBit.contains_union, ih]
    simp only [List.mem_cons, exists_eq_or_imp]

end BatchFetch.ExitStatus
