import BatchFetch.Proofs.Store.LookUp
import BatchFetch.Store.Load

namespace BatchFetch

namespace Json

mutual
/-- The leaves of a value, each with the names on the way to it. -/
def leaves : Json → List (List String × Json)
  | .obj (first :: members) => memberLeaves (first :: members)
  | value => [([], value)]

def memberLeaves : List (String × Json) → List (List String × Json)
  | [] => []
  | (key, value) :: rest =>
    (leaves value).map (fun leaf => (key :: leaf.1, leaf.2)) ++ memberLeaves rest
end

end Json

/-- The section that the outer names of a leaf make. -/
def Store.sectionOf : List String → String
  | [] => globalSection
  | names => levelSeparator.toString.intercalate names

/-- The setting of a leaf. Its last name is the key. -/
def Setting.ofLeaf (names : List String) (value : Json) : Setting where
  sectionName := Store.sectionOf names.dropLast
  key := names.getLast?.getD ""
  value

/-- The settings of a document in the order in which they are written, if its root is a mapping or
null. -/
def Json.settings? : Json → Option (List Setting)
  | .obj members => some ((memberLeaves members).map fun leaf => .ofLeaf leaf.1 leaf.2)
  | .null => some []
  | _ => none

namespace Store

/-- The outer names of a leaf as a parent of `mergeMembers`. -/
def parentOf : List String → Option String
  | [] => none
  | names => some (levelSeparator.toString.intercalate names)

theorem sectionOf_eq (names : List String) : sectionOf names = (parentOf names).getD globalSection := by
  cases names <;> rfl

theorem parentOf_concat (outer : List String) (key : String) :
    parentOf (outer ++ [key]) = some (nestedSection (parentOf outer) key) := by
  cases outer with
  | nil => rfl
  | cons name rest =>
    have joined := String.intercalate_append_of_ne_nil (s := levelSeparator.toString)
      (List.cons_ne_nil name rest) (List.cons_ne_nil key [])
    rw [String.intercalate_singleton] at joined
    exact congrArg some joined

mutual
theorem mergeMember_eq (store : Store) (count : Nat) (outer : List String) (key : String) :
    ∀ value : Json, store.mergeMember count (parentOf outer) key value =
      (store.setAll (value.leaves.map fun leaf => .ofLeaf (outer ++ key :: leaf.1) leaf.2),
        count + value.leaves.length)
  | .obj (first :: members) => by
    have nested := mergeMembers_eq store count (outer ++ [key]) (first :: members)
    rw [parentOf_concat] at nested
    simpa only [mergeMember, Json.leaves, List.append_assoc, List.singleton_append] using nested
  | .obj [] | .null | .bool _ | .num _ | .str _ | .arr _ => by
    simp [mergeMember, Json.leaves, setAll, Setting.ofLeaf, sectionOf_eq]

/-- Merging members below some names writes their leaves. -/
theorem mergeMembers_eq (store : Store) (count : Nat) (outer : List String) :
    ∀ members : List (String × Json), store.mergeMembers count (parentOf outer) members =
      (store.setAll ((Json.memberLeaves members).map fun leaf => .ofLeaf (outer ++ leaf.1) leaf.2),
        count + (Json.memberLeaves members).length)
  | [] => rfl
  | (key, value) :: rest => by
    rw [mergeMembers, mergeMember_eq store count outer key value]
    simp only
    rw [mergeMembers_eq _ _ outer rest]
    simp only [Json.memberLeaves, List.map_append, List.map_map, List.length_append,
      List.length_map, setAll_append, Nat.add_assoc]
    rfl
end

theorem mergeDocument_eq (store : Store) (document : Json) :
    (store.mergeDocument document).toOption =
      document.settings?.map fun settings => (store.setAll settings, settings.length) := by
  cases document with
  | obj members =>
    have merged := store.mergeMembers_eq 0 [] members
    simp only [mergeDocument, Json.settings?, Except.toOption, Option.map_some, List.length_map]
    rw [show (none : Option String) = parentOf [] from rfl, merged, Nat.zero_add]
    rfl
  | null => rfl
  | bool | num | str | arr => rfl

end Store
end BatchFetch
