import BatchFetch.Proofs.Text.Digits
import BatchFetch.Proofs.Text.Pieces
import BatchFetch.Proofs.Url.HostName

namespace BatchFetch.Host

/-- The groups of an address between colons. -/
def groupsText (groups : List Nat) : List Char :=
  [':'].intercalate (groups.map (Nat.toDigits 16))

theorem part_of_group (groups : List Nat) :
    ∀ part ∈ groups.map (Nat.toDigits 16), part ≠ [] ∧ ':' ∉ part := by
  intro part member
  obtain ⟨g, _, rfl⟩ := List.mem_map.mp member
  exact ⟨Nat.toDigits_ne_nil, Text.not_mem_toDigits (by decide) (by decide) (by decide +kernel)⟩

theorem groupsText_inj {groups others : List Nat} (equal : groupsText groups = groupsText others) :
    groups = others :=
  List.map_injective_iff.mpr (fun _ _ => Text.toDigits_inj (by decide) (by decide))
    (Text.intercalate_inj (part_of_group groups) (part_of_group others) equal)

theorem cutDouble_cons {c : Char} (other : c ≠ ':') (rest : List Char) :
    cutDouble (c :: rest) = (cutDouble rest).map (Prod.map (c :: ·) id) := by
  rw [cutDouble]
  · rfl
  · intro _ equal
    exact absurd equal other

theorem cutDouble_colon {c : Char} (other : c ≠ ':') (rest : List Char) :
    cutDouble (':' :: c :: rest) = (cutDouble (c :: rest)).map (Prod.map (':' :: ·) id) := by
  rw [cutDouble]
  · rfl
  · intro _ _ equal
    exact absurd (List.cons.inj equal).1 other

theorem cutDouble_append {part : List Char} (noColon : ':' ∉ part) (rest : List Char) :
    cutDouble (part ++ rest) = (cutDouble rest).map (Prod.map (part ++ ·) id) := by
  induction part with
  | nil => cases cut : cutDouble rest <;> simp [cut, Prod.map]
  | cons c more ih =>
    rw [List.mem_cons, not_or] at noColon
    rw [List.cons_append, cutDouble_cons (Ne.symm noColon.1), ih noColon.2, Option.map_map]
    rfl

/-- There is no double colon among parts that are not empty. -/
theorem cutDouble_intercalate {parts : List (List Char)}
    (proper : ∀ part ∈ parts, part ≠ [] ∧ ':' ∉ part) (rest : List Char) :
    cutDouble ([':'].intercalate parts ++ rest) =
      (cutDouble rest).map (Prod.map ([':'].intercalate parts ++ ·) id) := by
  induction parts with
  | nil => exact cutDouble_append List.not_mem_nil rest
  | cons first more ih =>
    obtain ⟨_, noColon⟩ := proper first List.mem_cons_self
    have later : ∀ part ∈ more, part ≠ [] ∧ ':' ∉ part := fun part member =>
      proper part (List.mem_cons_of_mem _ member)
    cases more with
    | nil =>
      rw [List.intercalate_singleton]
      exact cutDouble_append noColon rest
    | cons second others =>
      obtain ⟨some, colonFree⟩ := later second List.mem_cons_self
      obtain ⟨tail, shape⟩ := Text.exists_intercalate_cons ':' second others
      have next := ih later
      rw [List.intercalate_cons_cons, List.append_assoc, List.append_assoc,
        cutDouble_append noColon]
      rw [shape] at next ⊢
      cases second with
      | nil => exact absurd rfl some
      | cons c front =>
        have other : c ≠ ':' := fun equal => colonFree (equal ▸ List.mem_cons_self)
        rw [List.cons_append, List.cons_append] at next ⊢
        rw [List.cons_append, List.nil_append, cutDouble_colon other, next, Option.map_map, Option.map_map]
        cases cutDouble rest <;> simp [Prod.map]

/-- A stretch of a list holds nothing but zeros. -/
def Zeros (groups : List Nat) (run : Nat × Nat) : Prop :=
  ∀ i, run.1 ≤ i → i < run.1 + run.2 → groups[i]? = some 0

/-- A zero behind an open run makes it longer; where none is open, it opens one. -/
theorem Zeros.extend {groups : List Nat} {start length index : Nat}
    (run : Zeros groups (start, length)) (reaches : length = 0 ∨ start + length = index)
    (zero : groups[index]? = some 0) :
    Zeros groups (if length = 0 then index else start, length + 1) ∧
      (if length = 0 then index else start) + (length + 1) = index + 1 := by
  split_ifs with closed
  · refine ⟨?_, by omega⟩
    intro i low high
    simp only at low high
    obtain rfl : i = index := by omega
    exact zero
  · refine ⟨?_, by omega⟩
    intro i low high
    simp only at low high
    by_cases last : i = index
    · rw [last]
      exact zero
    · exact run i low (by simp only; omega)

/-- The run that is open ends where the search has come to. -/
theorem zeroRun_zeros {done rest : List Nat} {start length : Nat} {best : Nat × Nat}
    (run : Zeros (done ++ rest) (start, length))
    (reaches : length = 0 ∨ start + length = done.length) (isBest : Zeros (done ++ rest) best) :
    Zeros (done ++ rest) (zeroRun done.length start length best rest) := by
  induction rest generalizing done start length best with
  | nil => exact isBest
  | cons g rest ih =>
    have whole : done ++ g :: rest = (done ++ [g]) ++ rest := by
      rw [List.append_assoc, List.singleton_append]
    have index : done.length + 1 = (done ++ [g]).length := by
      rw [List.length_append, List.length_singleton]
    have here : (done ++ g :: rest)[done.length]? = some g := by
      rw [List.getElem?_append_right (Nat.le_refl _), Nat.sub_self, List.getElem?_cons_zero]
    by_cases zero : g = 0
    · obtain ⟨longer, reachesNow⟩ := run.extend reaches (zero ▸ here)
      rw [zeroRun, if_pos zero, index]
      rw [index] at reachesNow
      rw [whole] at longer isBest ⊢
      refine ih longer (Or.inr reachesNow) ?_
      by_cases better : best.2 < length + 1
      · rw [if_pos better]
        exact longer
      · rw [if_neg better]
        exact isBest
    · rw [zeroRun, if_neg zero, index]
      rw [whole] at isBest ⊢
      refine ih ?_ (Or.inl rfl) isBest
      intro i _ high
      simp only at high
      omega

/-- The longest run of zeros. -/
def longestRun (groups : List Nat) : Nat × Nat :=
  zeroRun 0 0 0 (0, 0) groups

theorem longestRun_zeros (groups : List Nat) : Zeros groups (longestRun groups) := by
  have none : Zeros ([] ++ groups) (0, 0) := by
    intro i _ high
    simp only at high
    omega
  exact zeroRun_zeros none (Or.inl rfl) none

/-- A list is known from what is around a stretch of zeros, if its length is known. -/
theorem eq_of_around {groups others : List Nat} {run other : Nat × Nat}
    (zeros : Zeros groups run) (zerosToo : Zeros others other) (some : 0 < run.2)
    (someToo : 0 < other.2) (length : groups.length = others.length)
    (before : groups.take run.1 = others.take other.1)
    (after : groups.drop (run.1 + run.2) = others.drop (other.1 + other.2)) : groups = others := by
  obtain ⟨start, size⟩ := run
  obtain ⟨startToo, sizeToo⟩ := other
  simp only at some someToo before after
  have inside : start + size ≤ groups.length := by
    have last := zeros (start + size - 1) (by simp only; omega) (by simp only; omega)
    have bound := (List.getElem?_eq_some_iff.mp last).1
    omega
  have insideToo : startToo + sizeToo ≤ others.length := by
    have last := zerosToo (startToo + sizeToo - 1) (by simp only; omega) (by simp only; omega)
    have bound := (List.getElem?_eq_some_iff.mp last).1
    omega
  have sameStart : start = startToo := by
    have lengths := congrArg List.length before
    simp only [List.length_take] at lengths
    omega
  have sameSize : size = sizeToo := by
    have lengths := congrArg List.length after
    simp only [List.length_drop] at lengths
    omega
  subst sameStart sameSize
  refine List.ext_getElem? fun i => ?_
  by_cases early : i < start
  · rw [← List.getElem?_take_of_lt early, before, List.getElem?_take_of_lt early]
  · by_cases within : i < start + size
    · rw [zeros i (by simp only; omega) within, zerosToo i (by simp only; omega) within]
    · have place : start + size + (i - (start + size)) = i := by omega
      rw [← place, ← List.getElem?_drop, ← List.getElem?_drop, after]

theorem ipv6Text_toList (groups : List Nat) :
    (ipv6Text groups).toList =
      if (longestRun groups).2 < 2 then groupsText groups
      else groupsText (groups.take (longestRun groups).1) ++ ':' :: ':' ::
        groupsText (groups.drop ((longestRun groups).1 + (longestRun groups).2)) := by
  have joined (gs : List Nat) : (":".intercalate (gs.map groupText)).toList = groupsText gs := by
    rw [String.toList_intercalate, groupsText, List.map_map]
    congr 1
    refine List.map_congr_left fun g _ => ?_
    simp only [Function.comp, groupText, String.toList_ofList]
  have shape : ipv6Text groups =
      if (longestRun groups).2 < 2 then ":".intercalate (groups.map groupText)
      else ":".intercalate ((groups.take (longestRun groups).1).map groupText) ++ "::" ++
        ":".intercalate
          ((groups.drop ((longestRun groups).1 + (longestRun groups).2)).map groupText) := rfl
  rw [shape]
  split_ifs with short
  · exact joined groups
  · rw [String.toList_append, String.toList_append, joined, joined]
    simp

theorem cutDouble_ipv6Text (groups : List Nat) :
    cutDouble (ipv6Text groups).toList =
      if (longestRun groups).2 < 2 then none
      else some (groupsText (groups.take (longestRun groups).1),
        groupsText (groups.drop ((longestRun groups).1 + (longestRun groups).2))) := by
  rw [ipv6Text_toList]
  split_ifs
  · have cut := cutDouble_intercalate (part_of_group groups) []
    rw [List.append_nil] at cut
    exact cut
  · have cut := cutDouble_intercalate
      (part_of_group (groups.take (longestRun groups).1))
      (':' :: ':' :: groupsText (groups.drop ((longestRun groups).1 + (longestRun groups).2)))
    rw [groupsText, cut, cutDouble, Option.map_some, Prod.map, List.append_nil]
    rfl

theorem ipv6Text_inj {groups others : List Nat} (length : groups.length = others.length)
    (equal : ipv6Text groups = ipv6Text others) : groups = others := by
  have cut := cutDouble_ipv6Text groups
  rw [equal, cutDouble_ipv6Text] at cut
  split_ifs at cut with shortToo short short
  · have texts := congrArg String.toList equal
    rw [ipv6Text_toList, ipv6Text_toList, if_pos short, if_pos shortToo] at texts
    exact groupsText_inj texts
  · obtain ⟨before, after⟩ := Prod.mk.inj (Option.some.inj cut)
    exact eq_of_around (longestRun_zeros groups) (longestRun_zeros others) (by omega) (by omega)
      length (groupsText_inj before).symm (groupsText_inj after).symm

theorem mem_ipv6Text {groups : List Nat} {c : Char} (member : c ∈ (ipv6Text groups).toList) :
    c = ':' ∨ c ∈ (List.range 16).map Nat.digitChar := by
  have inGroups {gs : List Nat} (member : c ∈ groupsText gs) :
      c = ':' ∨ c ∈ (List.range 16).map Nat.digitChar := by
    rcases Text.mem_intercalate member with colon | ⟨part, inParts, inside⟩
    · exact Or.inl colon
    · obtain ⟨g, _, rfl⟩ := List.mem_map.mp inParts
      exact Or.inr (Text.mem_toDigits (by decide) (by decide) c inside)
  rw [ipv6Text_toList] at member
  split_ifs at member
  · exact inGroups member
  · rcases List.mem_append.mp member with front | back
    · exact inGroups front
    · rcases List.mem_cons.mp back with colon | back
      · exact Or.inl colon
      · rcases List.mem_cons.mp back with colon | back
        · exact Or.inl colon
        · exact inGroups back

/-- The four bytes of an address in decimal. -/
def bytesText (address : Nat) : List (List Char) :=
  [address / 16777216, address / 65536 % 256, address / 256 % 256, address % 256].map
    (Nat.toDigits 10)

theorem ipv4_toList (address : Nat) :
    (Host.ipv4 address).text.toList = ['.'].intercalate (bytesText address) := by
  rw [text, String.toList_intercalate, bytesText, List.map_map]
  congr 1
  refine List.map_congr_left fun n _ => ?_
  rw [Function.comp, Text.toList_toString]

theorem part_of_byte {address : Nat} : ∀ part ∈ bytesText address, part ≠ [] ∧ '.' ∉ part := by
  intro part member
  obtain ⟨n, _, rfl⟩ := List.mem_map.mp member
  exact ⟨Nat.toDigits_ne_nil, Text.not_mem_toDigits (by decide) (by decide) (by decide +kernel)⟩

theorem ipv4_inj {address other : Nat}
    (equal : (Host.ipv4 address).text = (Host.ipv4 other).text) : address = other := by
  have lists := congrArg String.toList equal
  rw [ipv4_toList, ipv4_toList] at lists
  have bytes := List.map_injective_iff.mpr (fun _ _ => Text.toDigits_inj (by decide) (by decide))
    (Text.intercalate_inj part_of_byte part_of_byte lists)
  simp only [List.cons.injEq, and_true] at bytes
  omega

/-- The text of an IPv4 address ends in a number, and no name does. -/
theorem ipv4_endsInNumber (address : Nat) :
    endsInNumber (Host.ipv4 address).text.toList = true := by
  have noDot : ∀ part ∈ bytesText address, '.' ∉ part := fun part member =>
    (part_of_byte part member).2
  have cut : Text.pieces '.' (Host.ipv4 address).text.toList = bytesText address := by
    rw [ipv4_toList, Text.pieces_intercalate noDot (List.cons_ne_nil _ _)]
  have last : (bytesText address).getLast? = some (Nat.toDigits 10 (address % 256)) := rfl
  have some : Nat.toDigits 10 (address % 256) ≠ [] := Nat.toDigits_ne_nil
  have decimal : (Nat.toDigits 10 (address % 256)).all Char.isDigit = true :=
    List.all_eq_true.mpr fun c member => Nat.isDigit_of_mem_toDigits (by decide) (by decide) member
  have allParts : parts (Host.ipv4 address).text.toList = bytesText address := by
    simp only [parts, cut, last, Option.some.injEq, some, if_false]
  rw [endsInNumber, allParts, last]
  split
  · rename_i absurdity
    cases absurdity
  · rename_i absurdity
    exact absurd (Option.some.inj absurdity) some
  · rename_i same
    rw [← Option.some.inj same, decimal, Bool.true_or]

theorem ipv6_toList (groups : List Nat) :
    (Host.ipv6 groups).text.toList = '[' :: ((ipv6Text groups).toList ++ [']']) := by
  simp [text]

/-- A denied character is nowhere in the text of a host, but for the colons and brackets of IPv6. -/
theorem Proper.not_mem_text {host : Host} (proper : host.Proper) {c : Char}
    (denied : isDenied c = true) (other : c ∉ [':', '[', ']']) : c ∉ host.text.toList := by
  have noDigit : c ∉ (List.range 16).map Nat.digitChar := by
    intro digit
    have allowed : ∀ d ∈ (List.range 16).map Nat.digitChar, isDenied d = false :=
      List.all_iff_forall_prop.mp (by decide +kernel)
    rw [allowed c digit] at denied
    cases denied
  intro member
  cases proper with
  | name allowed _ =>
    rw [allowed c member] at denied
    cases denied
  | ipv4 address =>
    rw [ipv4_toList] at member
    rcases Text.mem_intercalate member with rfl | ⟨part, inParts, inside⟩
    · exact absurd denied (by decide)
    · obtain ⟨n, _, rfl⟩ := List.mem_map.mp inParts
      exact noDigit (Text.mem_toDigits (by decide) (by decide) c inside)
  | ipv6 _ =>
    rw [ipv6_toList] at member
    simp only [List.mem_cons, List.mem_append, List.not_mem_nil, or_false, not_or] at member other
    rcases member with bracket | inside | bracket
    · exact other.2.1 bracket
    · rcases mem_ipv6Text inside with colon | digit
      · exact other.1 colon
      · exact noDigit digit
    · exact other.2.2 bracket

/-- Brackets and colons are written for IPv6 addresses alone. -/
theorem Proper.cases_text {host : Host} (proper : host.Proper) :
    (':' ∉ host.text.toList ∧ '[' ∉ host.text.toList) ∨
      ∃ groups, host = .ipv6 groups ∧ groups.length = 8 := by
  cases proper with
  | @name text allowed _ =>
    refine Or.inl ⟨?_, ?_⟩
    · intro member
      exact absurd (allowed _ member) (by decide)
    · intro member
      exact absurd (allowed _ member) (by decide)
  | ipv4 address =>
    have known : ∀ c ∈ (Host.ipv4 address).text.toList,
        c = '.' ∨ c ∈ (List.range 16).map Nat.digitChar := by
      intro c member
      rw [ipv4_toList] at member
      refine (Text.mem_intercalate member).imp_right ?_
      rintro ⟨part, inParts, inside⟩
      obtain ⟨n, _, rfl⟩ := List.mem_map.mp inParts
      exact Text.mem_toDigits (by decide) (by decide) c inside
    refine Or.inl ⟨?_, ?_⟩
    · intro member
      exact absurd (known _ member) (by decide +kernel)
    · intro member
      exact absurd (known _ member) (by decide +kernel)
  | ipv6 eight => exact Or.inr ⟨_, rfl, eight⟩

theorem Proper.text_inj {host other : Host} (proper : host.Proper) (properToo : other.Proper)
    (equal : host.text = other.text) : host = other := by
  have starts (groups : List Nat) : '[' ∈ (Host.ipv6 groups).text.toList := by
    rw [ipv6_toList]
    exact List.mem_cons_self
  rcases proper.cases_text with ⟨_, plain⟩ | ⟨groups, rfl, eight⟩
  · rcases properToo.cases_text with ⟨_, plainToo⟩ | ⟨groups, rfl, _⟩
    · cases proper with
      | ipv6 => exact absurd (starts _) plain
      | @name text _ number =>
        cases properToo with
        | ipv6 => exact absurd (starts _) plainToo
        | name => exact congrArg Host.name equal
        | ipv4 address =>
          have numberToo := ipv4_endsInNumber address
          rw [← equal] at numberToo
          exact absurd (number.symm.trans numberToo) Bool.false_ne_true
      | ipv4 address =>
        cases properToo with
        | ipv6 => exact absurd (starts _) plainToo
        | ipv4 => rw [ipv4_inj equal]
        | @name text _ number =>
          have numberToo := ipv4_endsInNumber address
          rw [equal] at numberToo
          exact absurd (number.symm.trans numberToo) Bool.false_ne_true
    · rw [equal] at plain
      exact absurd (starts groups) plain
  · rcases properToo.cases_text with ⟨_, plainToo⟩ | ⟨others, rfl, eightToo⟩
    · rw [← equal] at plainToo
      exact absurd (starts groups) plainToo
    · have lists := congrArg String.toList equal
      rw [ipv6_toList, ipv6_toList] at lists
      have inner := List.append_cancel_right (List.cons.inj lists).2
      rw [ipv6Text_inj (eight.trans eightToo.symm) (String.toList_inj.mp inner)]

end BatchFetch.Host
