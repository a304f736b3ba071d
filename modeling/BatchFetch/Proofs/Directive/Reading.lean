import BatchFetch.Directive.Basic
import BatchFetch.Proofs.Text.Blank
import BatchFetch.Proofs.Text.Pieces

namespace BatchFetch

/-- What can be wrong behind the mark of a directive: there is no `=`, or no JSON behind the first
one. -/
inductive Malformed.IsFaultOf (body : List Char) : Malformed → Prop
  | notPair : '=' ∉ body → IsFaultOf body (.notPair (String.ofList body))
  | notJson {name value : List Char} {message : String} : body = name ++ '=' :: value →
      '=' ∉ name → Json.parse (String.ofList (Text.trim value)) = .error message →
      IsFaultOf body (.notJson (String.ofList (Text.trim value)) message)

namespace Directive

theorem scopeOf_global (body : List Char) : scopeOf ('-' :: 'G' :: body) = (.global, body) := rfl

theorem scopeOf_oneTarget {body : List Char} (other : body.head? ≠ some 'G') :
    scopeOf ('-' :: body) = (.oneTarget, body) := by
  cases body with
  | nil => rfl
  | cons c rest =>
    unfold scopeOf
    split
    · rename_i same
      cases same
      exact absurd rfl other
    · rename_i same
      cases same
      rfl
    · rename_i noDash
      exact absurd rfl (noDash _)

/-- The section and the key are those between which the last colon of a name stands. -/
theorem splitName_eq_iff {name : List Char} {sectionName key : String} :
    splitName name = (sectionName, key) ↔
      ':' ∉ key.toList ∧ (name = sectionName.toList ++ ':' :: key.toList ∨
        sectionName = globalSection ∧ name = key.toList) := by
  unfold splitName
  cases cut : Text.cutLast ':' name with
  | none =>
    have absent := Text.cutLast_eq_none_iff.mp cut
    rw [Prod.mk.injEq]
    constructor
    · rintro ⟨rfl, rfl⟩
      rw [String.toList_ofList]
      exact ⟨absent, Or.inr ⟨rfl, rfl⟩⟩
    · rintro ⟨_, colon | ⟨rfl, rfl⟩⟩
      · rw [colon] at absent
        exact absurd (List.mem_append_right _ List.mem_cons_self) absent
      · exact ⟨rfl, String.ofList_toList⟩
  | some parts =>
    obtain ⟨before, after⟩ := parts
    obtain ⟨whole, absent⟩ := Text.cutLast_eq_some_iff.mp cut
    rw [Prod.mk.injEq]
    constructor
    · rintro ⟨rfl, rfl⟩
      rw [String.toList_ofList, String.toList_ofList]
      exact ⟨absent, Or.inl whole⟩
    · rintro ⟨free, colon | ⟨_, plain⟩⟩
      · rw [colon, Text.cutLast_append _ free] at cut
        cases cut
        exact ⟨String.ofList_toList, String.ofList_toList⟩
      · rw [← plain, whole] at free
        exact absurd (List.mem_append_right _ List.mem_cons_self) free

/-- What is read where a name stands before the first `=`. -/
theorem parseBody_pair (scope : Scope) {name : List Char} (noEquals : '=' ∉ name)
    (value : List Char) :
    parseBody scope (name ++ '=' :: value) =
      match Json.parse (String.ofList (Text.trim value)) with
      | .error message => .error (.notJson (String.ofList (Text.trim value)) message)
      | .ok value =>
        .ok ⟨⟨(splitName (Text.trim name)).1, (splitName (Text.trim name)).2, value⟩, scope⟩ := by
  cases reads : Json.parse (String.ofList (Text.trim value)) <;>
    simp only [parseBody, Text.cutFirst_append noEquals, reads]

/-- A body has no `=`, or what stands behind the first one is no JSON, or it is read. -/
theorem parseBody_cases (scope : Scope) (body : List Char) :
    ('=' ∉ body ∧ parseBody scope body = .error (.notPair (String.ofList body))) ∨
      ∃ name value, body = name ++ '=' :: value ∧ '=' ∉ name ∧
        ((∃ message, Json.parse (String.ofList (Text.trim value)) = .error message ∧
            parseBody scope body = .error (.notJson (String.ofList (Text.trim value)) message)) ∨
          ∃ valued, Json.parse (String.ofList (Text.trim value)) = .ok valued ∧
            parseBody scope body =
              .ok ⟨⟨(splitName (Text.trim name)).1, (splitName (Text.trim name)).2, valued⟩, scope⟩) := by
  cases cut : Text.cutFirst '=' body with
  | none =>
    refine Or.inl ⟨Text.cutFirst_eq_none_iff.mp cut, ?_⟩
    rw [parseBody, cut]
  | some parts =>
    obtain ⟨name, value⟩ := parts
    obtain ⟨rfl, noEquals⟩ := Text.cutFirst_eq_some_iff.mp cut
    refine Or.inr ⟨name, value, rfl, noEquals, ?_⟩
    rw [parseBody_pair scope noEquals]
    cases Json.parse (String.ofList (Text.trim value)) with
    | error message => exact Or.inl ⟨message, rfl, rfl⟩
    | ok valued => exact Or.inr ⟨valued, rfl, rfl⟩

theorem parseBody_eq_ok_iff {scope : Scope} {body : List Char} {d : Directive} :
    parseBody scope body = .ok d ↔ d.scope = scope ∧
      ∃ name value, body = name ++ '=' :: value ∧ '=' ∉ name ∧
        splitName (Text.trim name) = (d.sectionName, d.key) ∧
        Json.parse (String.ofList (Text.trim value)) = .ok d.value := by
  constructor
  · intro read
    rcases parseBody_cases scope body with ⟨_, failed⟩ | ⟨name, value, whole, noEquals, result⟩
    · cases failed.symm.trans read
    · rcases result with ⟨_, _, failed⟩ | ⟨_, valued, succeeded⟩
      · cases failed.symm.trans read
      · cases succeeded.symm.trans read
        exact ⟨rfl, name, value, whole, noEquals, rfl, valued⟩
  · rintro ⟨rfl, name, value, rfl, noEquals, named, valued⟩
    rw [parseBody_pair _ noEquals, valued, named]

theorem parseBody_eq_error_iff {scope : Scope} {body : List Char} {problem : Malformed} :
    parseBody scope body = .error problem ↔ problem.IsFaultOf body := by
  constructor
  · intro failed
    rcases parseBody_cases scope body with ⟨noEquals, here⟩ | ⟨_, _, whole, noEquals, result⟩
    · cases here.symm.trans failed
      exact .notPair noEquals
    · rcases result with ⟨_, valued, here⟩ | ⟨_, _, succeeded⟩
      · cases here.symm.trans failed
        exact .notJson whole noEquals valued
      · cases succeeded.symm.trans failed
  · intro fault
    cases fault with
    | notPair noEquals => rw [parseBody, Text.cutFirst_eq_none_iff.mpr noEquals]
    | notJson whole noEquals valued => rw [whole, parseBody_pair scope noEquals, valued]

theorem parse_eq_error_iff {line : List Char} {problem : Malformed} :
    parse line = .error problem ↔ problem.IsFaultOf (scopeOf line).2 :=
  parseBody_eq_error_iff

/-- What is read has no `=` in its name. -/
theorem noEquals_of_parseBody {scope : Scope} {body : List Char} {d : Directive}
    (read : parseBody scope body = .ok d) : '=' ∉ d.sectionName.toList ∧ '=' ∉ d.key.toList := by
  obtain ⟨_, name, _, _, noEquals, named, _⟩ := parseBody_eq_ok_iff.mp read
  have trimmed : '=' ∉ Text.trim name := fun inside => noEquals (Text.trim_subset name inside)
  obtain ⟨_, colon | ⟨global, plain⟩⟩ := splitName_eq_iff.mp named
  · rw [colon, List.mem_append, List.mem_cons, not_or, not_or] at trimmed
    exact ⟨trimmed.1, trimmed.2.2⟩
  · rw [plain] at trimmed
    rw [global]
    exact ⟨by decide, trimmed⟩

end Directive
end BatchFetch
