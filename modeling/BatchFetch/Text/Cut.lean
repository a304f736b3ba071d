namespace BatchFetch.Text

/-- The parts before and after the first occurrence of `sep`. -/
def cutFirst (sep : Char) : List Char → Option (List Char × List Char)
  | [] => none
  | c :: rest =>
    if c = sep then some ([], rest)
    else (cutFirst sep rest).map fun (before, after) => (c :: before, after)

/-- The parts before and after the last occurrence of `sep`. -/
def cutLast (sep : Char) : List Char → Option (List Char × List Char)
  | [] => none
  | c :: rest =>
    match cutLast sep rest with
    | some (before, after) => some (c :: before, after)
    | none => if c = sep then some ([], rest) else none

/-- The pieces between the occurrences of `sep`; one piece when it does not occur. -/
def pieces (sep : Char) : List Char → List (List Char)
  | [] => [[]]
  | c :: rest =>
    if c = sep then [] :: pieces sep rest
    else
      match pieces sep rest with
      | [] => [[c]]
      | piece :: more => (c :: piece) :: more

theorem pieces_ne_nil (sep : Char) (text : List Char) : pieces sep text ≠ [] := by
  cases text with
  | nil => exact List.cons_ne_nil _ _
  | cons c rest =>
    rw [pieces]
    split
    · exact List.cons_ne_nil _ _
    · split <;> exact List.cons_ne_nil _ _

/-- What follows `word`, if the text starts with it. -/
def dropWord? : List Char → List Char → Option (List Char)
  | [], text => some text
  | _ :: _, [] => none
  | w :: word, c :: text => if w = c then dropWord? word text else none

theorem eq_append_of_dropWord? {word text rest : List Char} (h : dropWord? word text = some rest) :
    text = word ++ rest := by
  fun_induction dropWord? word text with
  | case1 => simpa using h
  | case2 => simp at h
  | case3 w word text ih => simp [ih h]
  | case4 => simp at h

theorem length_of_dropWord? {word text rest : List Char} (h : dropWord? word text = some rest) :
    rest.length + word.length = text.length := by
  rw [eq_append_of_dropWord? h, List.length_append, Nat.add_comm]

/-- Replace every occurrence of a non-empty `word`, from left to right and without looking again
at what was put in. -/
def replaceAll (word value : List Char) : List Char → List Char
  | [] => []
  | c :: rest =>
    match _found : dropWord? word (c :: rest) with
    | none => c :: replaceAll word value rest
    | some after =>
      if _nonempty : word = [] then c :: replaceAll word value rest
      else value ++ replaceAll word value after
  termination_by text => text.length
  decreasing_by
    · simp
    · simp
    · have shorter := length_of_dropWord? _found
      have : 0 < word.length := List.length_pos_iff.2 _nonempty
      simp only [List.length_cons] at shorter ⊢
      omega

/-- `replaceAll` on strings. -/
def replaced (s word value : String) : String :=
  String.ofList (replaceAll word.toList value.toList s.toList)

def asciiLower (s : String) : String :=
  String.ofList (s.toList.map Char.toLower)

end BatchFetch.Text
