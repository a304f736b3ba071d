import BatchFetch.Proofs.Files.Paths

namespace BatchFetch.Path

/-- What two dots make of the names that are resolved, the last of which is first. With no name to take
back they lead nowhere from the root, and stay in front of a relative path. -/
def takeBack (absolute : Bool) : List String → List String
  | [] => if absolute then [] else [".."]
  | name :: outer => if name = ".." then ".." :: name :: outer else outer

/-- One piece more behind the names that are resolved, the last of which is first. -/
def resolveStep (absolute : Bool) (names : List String) (piece : String) : List String :=
  if isIdle piece then names
  else if piece = ".." then takeBack absolute names
  else piece :: names

/-- The names that a path consists of when it is resolved. -/
def resolved (path : String) : List String :=
  ((pieces path).foldl (resolveStep (isAbsolute path)) []).reverse

/-- A path leads to something below a directory, as far as the texts of both tell. -/
structure StrictlyBelow (path base : String) : Prop where
  isAbsolute : isAbsolute path = isAbsolute base
  names : ∃ below, resolved path = resolved base ++ below ∧ below ≠ [] ∧ ".." ∉ below

theorem foldl_resolveStep (absolute : Bool) {list : List String} (noUp : ".." ∉ list)
    (names : List String) :
    list.foldl (resolveStep absolute) names =
      (list.filter fun piece => !isIdle piece).reverse ++ names := by
  induction list generalizing names with
  | nil => rfl
  | cons piece rest ih =>
    obtain ⟨differs, noUpLater⟩ := List.ne_and_not_mem_of_not_mem_cons noUp
    rw [List.foldl_cons, ih noUpLater, resolveStep]
    by_cases idle : isIdle piece = true
    · rw [if_pos idle, List.filter_cons_of_neg (by simp [idle])]
    · rw [if_neg idle, if_neg differs.symm, List.filter_cons_of_pos (by simp [idle]),
        List.reverse_cons, List.append_assoc, List.singleton_append]

/-- What a relative path is resolved to below a directory. -/
theorem resolved_join {name : String} (relative : isAbsolute name = false) (base : String) :
    resolved (join base name) =
      ((pieces name).foldl (resolveStep (isAbsolute base)) (resolved base).reverse).reverse := by
  obtain ⟨front, cut, same | longer⟩ := exists_front relative base
  · rw [resolved, resolved, List.reverse_reverse, isAbsolute_join relative, cut, same,
      List.foldl_append]
  · -- the empty piece behind the last slash of the directory leads nowhere
    rw [resolved, resolved, List.reverse_reverse, isAbsolute_join relative, cut, longer,
      List.foldl_append, List.foldl_append]
    rfl

theorem resolved_join_of_noUp {name : String} (relative : isAbsolute name = false)
    (noUp : ".." ∉ pieces name) (base : String) :
    resolved (join base name) = resolved base ++ components name := by
  rw [resolved_join relative, foldl_resolveStep _ noUp, List.reverse_append, List.reverse_reverse,
    List.reverse_reverse]
  rfl

/-- Without two dots, a relative path leads below a directory if there is a name in it. -/
theorem strictlyBelow_join_iff {name : String} (relative : isAbsolute name = false)
    (noUp : ".." ∉ pieces name) (base : String) :
    StrictlyBelow (join base name) base ↔ components name ≠ [] := by
  have names := resolved_join_of_noUp relative noUp base
  constructor
  · rintro ⟨_, below, same, some, _⟩
    rw [List.append_cancel_left (names.symm.trans same)]
    exact some
  · intro some
    exact ⟨isAbsolute_join relative base, _, names, some, fun up => noUp (List.mem_of_mem_filter up)⟩

/-- Two dots add no name. -/
theorem takeBack_ne_append (absolute : Bool) {below : List String} (some : below ≠ [])
    (noUp : ".." ∉ below) (names : List String) : takeBack absolute names ≠ below ++ names := by
  intro same
  cases names with
  | nil =>
    rw [takeBack, List.append_nil] at same
    split_ifs at same
    · exact some same.symm
    · exact noUp (same ▸ List.mem_cons_self)
  | cons name outer =>
    rw [takeBack] at same
    split_ifs at same
    · have up : [".."] = below := (List.append_left_inj (name :: outer)).mp same
      exact noUp (up ▸ List.mem_cons_self)
    · have lengths := congrArg List.length same
      rw [List.length_append, List.length_cons] at lengths
      omega

theorem not_strictlyBelow_up (base : String) : ¬ StrictlyBelow (join base "..") base := by
  rintro ⟨_, below, same, some, noUp⟩
  have taken : resolved (join base "..") =
      (takeBack (isAbsolute base) (resolved base).reverse).reverse :=
    resolved_join (by decide) base
  refine takeBack_ne_append (isAbsolute base) (mt List.reverse_eq_nil_iff.mp some)
    (mt List.mem_reverse.mp noUp) (resolved base).reverse ?_
  rw [← List.reverse_append, ← same, taken, List.reverse_reverse]

end BatchFetch.Path
