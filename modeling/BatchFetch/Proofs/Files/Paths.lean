import BatchFetch.Files.System
import BatchFetch.Proofs.Text.Pieces
import Mathlib.Data.List.DropRight
import Mathlib.Data.List.Infix

namespace BatchFetch.Path

theorem pieces_ne_nil (path : String) : pieces path ≠ [] :=
  mt List.map_eq_nil_iff.mp (Text.pieces_ne_nil _ _)

theorem no_slash {path piece : String} (member : piece ∈ pieces path) : '/' ∉ piece.toList := by
  obtain ⟨part, inPath, rfl⟩ := List.mem_map.mp member
  rw [String.toList_ofList]
  exact Text.not_mem_of_mem_pieces inPath

theorem pieces_of_no_slash {name : String} (noSlash : '/' ∉ name.toList) : pieces name = [name] := by
  rw [pieces, Text.pieces_of_not_mem noSlash, List.map_singleton, String.ofList_toList]

theorem pieces_slash (base name : String) :
    pieces (base ++ "/" ++ name) = pieces base ++ pieces name := by
  have cut : (base ++ "/" ++ name).toList = base.toList ++ '/' :: name.toList := by
    simp
  rw [pieces, cut, Text.pieces_append, List.map_append]
  rfl

theorem pieces_intercalate {parts : List String} (noSlash : ∀ part ∈ parts, '/' ∉ part.toList)
    (some : parts ≠ []) : pieces ("/".intercalate parts) = parts := by
  have slash : "/".toList = ['/'] := rfl
  have inner : ∀ part ∈ parts.map String.toList, '/' ∉ part := by
    intro part member
    obtain ⟨name, inParts, rfl⟩ := List.mem_map.mp member
    exact noSlash name inParts
  rw [pieces, String.toList_intercalate, slash,
    Text.pieces_intercalate inner (mt List.map_eq_nil_iff.mp some), List.map_map]
  exact List.map_id'' (fun name => String.ofList_toList) parts

/-- A path is absolute when an empty piece stands in front of others. -/
theorem isAbsolute_iff {path : String} :
    isAbsolute path = true ↔ ∃ second rest, pieces path = "" :: second :: rest := by
  rw [isAbsolute, pieces, decide_eq_true_eq]
  cases path.toList with
  | nil => simp [Text.pieces]
  | cons c rest =>
    rw [Text.pieces, List.head?_cons, Option.some.injEq]
    split_ifs with slash
    · obtain ⟨second, more, cut⟩ := List.exists_cons_of_ne_nil (Text.pieces_ne_nil '/' rest)
      rw [cut]
      exact iff_of_true slash ⟨_, _, rfl⟩
    · refine iff_of_false slash ?_
      rintro ⟨second, more, equal⟩
      have nonempty (text : List Char) : String.ofList (c :: text) ≠ "" := by
        rw [ne_eq, ← String.toList_inj, String.toList_ofList]
        exact List.cons_ne_nil _ _
      split at equal
      · exact nonempty _ (List.cons.inj equal).1
      · exact nonempty _ (List.cons.inj equal).1

/-- The names in a path. -/
def components (path : String) : List String :=
  (pieces path).filter fun piece => !isIdle piece

theorem trimPieces_cons (first : String) (rest : List String) :
    trimPieces (first :: rest) = first :: rest.rdropWhile isIdle := rfl

theorem filter_rdropWhile (list : List String) :
    (list.rdropWhile isIdle).filter (fun piece => !isIdle piece) =
      list.filter fun piece => !isIdle piece := by
  induction list using List.reverseRecOn with
  | nil => rfl
  | append_singleton front last ih =>
    rw [List.rdropWhile_concat]
    split_ifs with idle
    · rw [ih, List.filter_append, List.filter_cons_of_neg (by simp [idle]), List.filter_nil,
        List.append_nil]
    · rfl

theorem filter_trimPieces (list : List String) :
    (trimPieces list).filter (fun piece => !isIdle piece) =
      list.filter fun piece => !isIdle piece := by
  cases list with
  | nil => rfl
  | cons first rest =>
    rw [trimPieces_cons, List.filter_cons, List.filter_cons, filter_rdropWhile]

theorem trimPieces_subset {list : List String} {piece : String} (member : piece ∈ trimPieces list) :
    piece ∈ list := by
  cases list with
  | nil => cases member
  | cons first rest =>
    rw [trimPieces_cons] at member
    rcases List.mem_cons.mp member with rfl | later
    · exact List.mem_cons_self
    · exact List.mem_cons_of_mem _ ((List.rdropWhile_prefix _ rest).subset later)

/-- A path leads above another one, or to the same place. -/
structure Above (path below : String) : Prop where
  components : components path <+: components below
  isAbsolute : isAbsolute path = isAbsolute below
  up : ".." ∈ pieces path → ".." ∈ pieces below

theorem Above.refl (path : String) : Above path path :=
  ⟨List.prefix_rfl, rfl, id⟩

theorem Above.trans {path middle below : String} (first : Above path middle)
    (second : Above middle below) : Above path below :=
  ⟨first.components.trans second.components, first.isAbsolute.trans second.isAbsolute,
    fun up => second.up (first.up up)⟩

theorem isAbsolute_of_cut {path first : String} {rest : List String}
    (cut : pieces path = first :: rest) :
    isAbsolute path = true ↔ first = "" ∧ rest ≠ [] := by
  rw [isAbsolute_iff, cut]
  constructor
  · rintro ⟨second, more, equal⟩
    obtain ⟨rfl, rfl⟩ := List.cons.inj equal
    exact ⟨rfl, List.cons_ne_nil _ _⟩
  · rintro ⟨rfl, some⟩
    obtain ⟨second, more, rfl⟩ := List.exists_cons_of_ne_nil some
    exact ⟨second, more, rfl⟩

theorem isAbsolute_congr {path other : String} (same : isAbsolute path = true ↔ isAbsolute other = true) :
    isAbsolute path = isAbsolute other :=
  Bool.eq_iff_iff.mpr same

/-- How a path and its parent are made up. A path of one name has the empty path above it. Otherwise
the names before the last are kept, and where these are none the root is above an absolute path. -/
inductive ParentOf (path : String) : String → Prop
  | bare {name : String} {rest : List String} : pieces path = name :: rest → name ≠ "" →
      rest.rdropWhile isIdle = [] → ParentOf path ""
  | root {rest init : List String} {last : String} : pieces path = "" :: rest →
      rest.rdropWhile isIdle = init ++ [last] → trimPieces ("" :: init) = [""] → ParentOf path "/"
  | names {first last : String} {rest init : List String} : pieces path = first :: rest →
      rest.rdropWhile isIdle = init ++ [last] → trimPieces (first :: init) ≠ [""] →
      ParentOf path ("/".intercalate (trimPieces (first :: init)))

theorem parentOf_of_parent? {path parent : String} (found : parent? path = some parent) :
    ParentOf path parent := by
  obtain ⟨first, rest, cut⟩ := List.exists_cons_of_ne_nil (pieces_ne_nil path)
  rw [parent?, cut, trimPieces_cons] at found
  rcases List.eq_nil_or_concat (rest.rdropWhile isIdle) with none | ⟨init, last, shape⟩
  · rw [none] at found
    simp only at found
    split_ifs at found with empty
    cases found
    exact .bare cut (mt String.isEmpty_iff.mpr empty) none
  · rw [List.concat_eq_append] at shape
    have some : init ++ [last] ≠ [] := List.append_ne_nil_of_right_ne_nil _ (List.cons_ne_nil _ _)
    rw [shape] at found
    split at found
    · cases found
    · rename_i single
      exact absurd (List.cons.inj single).2 some
    · rw [← List.cons_append, List.dropLast_concat] at found
      split at found
      · rename_i onlyRoot
        cases found
        obtain rfl : first = "" := (List.cons.inj onlyRoot).1
        exact .root cut shape onlyRoot
      · rename_i notRoot
        cases found
        exact .names cut shape notRoot

section

variable {path first last : String} {rest init : List String}

theorem components_of_cut (cut : pieces path = first :: rest)
    (shape : rest.rdropWhile isIdle = init ++ [last]) :
    components path = (trimPieces (first :: init)).filter (fun piece => !isIdle piece) ++ [last] := by
  have some : rest.rdropWhile isIdle ≠ [] := by
    rw [shape]
    exact List.append_ne_nil_of_right_ne_nil _ (List.cons_ne_nil _ _)
  have notIdle : isIdle last = false := by
    have ends := List.rdropWhile_last_not isIdle rest some
    simpa [shape] using ends
  have kept : [last].filter (fun piece => !isIdle piece) = [last] :=
    List.filter_cons_of_pos (by rw [notIdle]; rfl)
  rw [components, cut, ← filter_trimPieces, trimPieces_cons, shape, ← List.cons_append,
    List.filter_append, kept, filter_trimPieces]

theorem rest_ne_nil (shape : rest.rdropWhile isIdle = init ++ [last]) : rest ≠ [] := by
  rintro rfl
  exact List.append_ne_nil_of_right_ne_nil init (List.cons_ne_nil last []) shape.symm

theorem mem_pieces_of_cut (cut : pieces path = first :: rest)
    (shape : rest.rdropWhile isIdle = init ++ [last]) {piece : String}
    (member : piece ∈ trimPieces (first :: init)) : piece ∈ pieces path := by
  rw [cut]
  rcases List.mem_cons.mp (trimPieces_subset member) with rfl | inInit
  · exact List.mem_cons_self
  · have inRest : piece ∈ rest.rdropWhile isIdle := by
      rw [shape]
      exact List.mem_append_left _ inInit
    exact List.mem_cons_of_mem _ ((List.rdropWhile_prefix _ rest).subset inRest)

end

/-- The parent has all names but the last. -/
theorem ParentOf.eq {path parent : String} (isParent : ParentOf path parent) :
    components parent = (components path).dropLast ∧ isAbsolute parent = isAbsolute path ∧
      (".." ∈ pieces parent → ".." ∈ pieces path) := by
  cases isParent with
  | @bare name rest cut some none =>
    refine ⟨?_, isAbsolute_congr ?_, fun member => absurd member (by decide)⟩
    · rw [components, components, cut, ← filter_trimPieces (name :: rest), trimPieces_cons, none]
      cases idle : isIdle name <;> simp [idle] <;> decide
    · rw [isAbsolute_of_cut cut]
      exact iff_of_false (by decide) fun both => some both.1
  | root cut shape onlyRoot =>
    refine ⟨?_, isAbsolute_congr ?_, fun member => absurd member (by decide)⟩
    · rw [components_of_cut cut shape, List.dropLast_concat, onlyRoot]
      decide
    · rw [isAbsolute_of_cut cut]
      exact iff_of_true (by decide) ⟨rfl, rest_ne_nil shape⟩
  | @names first last rest init cut shape notRoot =>
    have parts : pieces ("/".intercalate (trimPieces (first :: init))) =
        trimPieces (first :: init) :=
      pieces_intercalate (fun piece member => no_slash (mem_pieces_of_cut cut shape member))
        (List.cons_ne_nil _ _)
    refine ⟨?_, isAbsolute_congr ?_, ?_⟩
    · rw [components, parts, components_of_cut cut shape, List.dropLast_concat]
    · rw [isAbsolute_of_cut cut, isAbsolute_of_cut parts]
      refine and_congr_right fun empty => iff_of_true ?_ (rest_ne_nil shape)
      intro none
      rw [empty, trimPieces_cons] at notRoot
      exact notRoot (congrArg ("" :: ·) none)
    · intro up
      rw [parts] at up
      exact mem_pieces_of_cut cut shape up

theorem above_of_parent? {path parent : String} (found : parent? path = some parent) :
    Above parent path := by
  obtain ⟨names, absolute, up⟩ := (parentOf_of_parent? found).eq
  exact ⟨names ▸ List.dropLast_prefix _, absolute, up⟩

theorem above_of_mem_ancestors {fuel : Nat} {path above : String}
    (member : above ∈ FileSystem.ancestors fuel path) : Above above path := by
  induction fuel generalizing path with
  | zero => cases member
  | succ fuel ih =>
    rw [FileSystem.ancestors] at member
    split_ifs at member with empty
    · cases member
    · rcases List.mem_cons.mp member with rfl | later
      · exact .refl above
      · cases found : parent? path with
        | none =>
          rw [found] at later
          cases later
        | some parent =>
          rw [found] at later
          exact (ih later).trans (above_of_parent? found)

/-- A name that a file can have: it is one component, and leads neither nowhere nor up. -/
structure IsPlain (name : String) : Prop where
  noSlash : '/' ∉ name.toList
  notIdle : isIdle name = false
  notUp : name ≠ ".."

theorem relative_of_noSlash {name : String} (noSlash : '/' ∉ name.toList) :
    isAbsolute name = false := by
  rw [isAbsolute, decide_eq_false_iff_not]
  intro starts
  exact noSlash (List.mem_of_mem_head? starts)

theorem IsPlain.relative {name : String} (plain : IsPlain name) : isAbsolute name = false :=
  relative_of_noSlash plain.noSlash

/-- The pieces of a relative path below a directory stand behind those of the directory, of which an
empty last one may be left out. -/
theorem exists_front {name : String} (relative : isAbsolute name = false) (base : String) :
    ∃ front, pieces (join base name) = front ++ pieces name ∧
      (pieces base = front ∨ pieces base = front ++ [""]) := by
  rw [join, relative, if_neg Bool.false_ne_true]
  by_cases empty : base = ""
  · rw [empty, if_pos (by decide), String.empty_append]
    exact ⟨[], rfl, Or.inr rfl⟩
  by_cases slash : base.toList.getLast? = some '/'
  · obtain ⟨chars, shape⟩ := List.getLast?_eq_some_iff.mp slash
    have cut : base = String.ofList chars ++ "/" ++ "" := by
      rw [← String.toList_inj, shape]
      simp
    have cutPieces : pieces base = pieces (String.ofList chars) ++ [""] := by
      rw [cut, pieces_slash]
      rfl
    have whole : base ++ name = String.ofList chars ++ "/" ++ name := by
      conv_lhs => rw [cut, String.append_empty]
    rw [if_pos (by simp [slash]), whole, pieces_slash]
    exact ⟨_, rfl, Or.inr cutPieces⟩
  · rw [if_neg (by simp [empty, slash]), pieces_slash]
    exact ⟨_, rfl, Or.inl rfl⟩

theorem exists_front_join {name : String} (plain : IsPlain name) (base : String) :
    ∃ front, pieces (join base name) = front ++ [name] ∧
      (pieces base = front ∨ pieces base = front ++ [""]) := by
  have found := exists_front plain.relative base
  rwa [pieces_of_no_slash plain.noSlash] at found

theorem exists_pieces_join {name : String} (plain : IsPlain name) (base : String) :
    ∃ front, pieces (join base name) = front ++ [name] ∧
      (front.filter fun piece => !isIdle piece) = components base ∧
      (".." ∈ front → ".." ∈ pieces base) := by
  obtain ⟨front, cut, same | longer⟩ := exists_front_join plain base
  · exact ⟨front, cut, by rw [components, same], fun up => same ▸ up⟩
  · refine ⟨front, cut, ?_, fun up => longer ▸ List.mem_append_left _ up⟩
    rw [components, longer, List.filter_append]
    exact (List.append_nil _).symm

theorem components_join {name : String} (plain : IsPlain name) (base : String) :
    components (join base name) = components base ++ [name] := by
  obtain ⟨front, cut, names, _⟩ := exists_pieces_join plain base
  have kept : [name].filter (fun piece => !isIdle piece) = [name] :=
    List.filter_cons_of_pos (by rw [plain.notIdle]; rfl)
  rw [components, cut, List.filter_append, names, kept]

theorem up_of_join {name : String} (plain : IsPlain name) {base : String}
    (up : ".." ∈ pieces (join base name)) : ".." ∈ pieces base := by
  obtain ⟨front, cut, _, inBase⟩ := exists_pieces_join plain base
  rw [cut] at up
  rcases List.mem_append.mp up with inFront | last
  · exact inBase inFront
  · exact absurd (List.mem_singleton.mp last).symm plain.notUp

theorem isAbsolute_join {name : String} (relative : isAbsolute name = false) (base : String) :
    isAbsolute (join base name) = isAbsolute base := by
  rw [join, relative, if_neg Bool.false_ne_true]
  by_cases empty : base = ""
  · rw [empty, if_pos (by decide), String.empty_append, relative]
    decide
  · have more (text : String) : isAbsolute (base ++ text) = isAbsolute base := by
      obtain ⟨c, chars, shape⟩ :=
        List.exists_cons_of_ne_nil (mt String.toList_eq_nil_iff.mp empty)
      rw [isAbsolute, isAbsolute, String.toList_append, shape, List.cons_append, List.head?_cons,
        List.head?_cons]
    split_ifs
    · exact more name
    · rw [String.append_assoc]
      exact more _

end BatchFetch.Path
