import BatchFetch.Store.Basic

namespace BatchFetch

namespace Json

/-- What a value is, in words. -/
def kind : Json → String
  | null => "null"
  | bool _ => "a boolean"
  | num _ => "a number"
  | str _ => "a string"
  | arr _ => "an array"
  | obj _ => "a mapping"

end Json

namespace Store

/-- The name of the section that a nested mapping stands for. -/
def nestedSection (parent : Option String) (key : String) : String :=
  match parent with
  | none => key
  | some parent => parent ++ levelSeparator.toString ++ key

mutual
/-- Merge one member of the mapping that stands for the section `parent`. The count is that of the
values written so far. -/
def mergeMember (store : Store) (count : Nat) (parent : Option String) (key : String) :
    Json → Store × Nat
  | .obj (first :: members) =>
    mergeMembers store count (some (nestedSection parent key)) (first :: members)
  | value => (store.set ⟨parent.getD globalSection, key, value⟩, count + 1)

def mergeMembers (store : Store) (count : Nat) (parent : Option String) :
    List (String × Json) → Store × Nat
  | [] => (store, count)
  | (key, value) :: rest =>
    let (store, count) := mergeMember store count parent key value
    mergeMembers store count parent rest
end

/-- Merge a document and count the values written. A null document is empty; any other root than a
mapping is refused with its kind. -/
def mergeDocument (store : Store) : Json → Except String (Store × Nat)
  | .obj members => .ok (store.mergeMembers 0 none members)
  | .null => .ok (store, 0)
  | other => .error other.kind

end Store
end BatchFetch
