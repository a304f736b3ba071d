import BatchFetch.Proofs.Batch.Lines
import BatchFetch.Proofs.Dispatch.Journal

namespace BatchFetch

/-- The line is a directive line, well-formed or not, for the next target alone. -/
def IsLocal (line : String) : Prop :=
  (Text.trim line.toList).head? = some '-' ∧ (Text.trim line.toList)[1]? ≠ some 'G'

instance (line : String) : Decidable (IsLocal line) :=
  inferInstanceAs (Decidable (_ ∧ _))

theorem IsLocal.not_isTarget {line : String} (isLocal : IsLocal line) : ¬ IsTarget line :=
  fun target => target.2.2 isLocal.1

theorem Directive.scope_of_parseBody {scope : Scope} {body : List Char} {directive : Directive}
    (parsed : parseBody scope body = .ok directive) : directive.scope = scope := by
  unfold parseBody at parsed
  split at parsed
  · cases parsed
  · simp only at parsed
    split at parsed
    · cases parsed
    · cases parsed
      rfl

theorem IsLocal.exists_body {line : String} (isLocal : IsLocal line) :
    ∃ body, Directive.parse (Text.trim line.toList) = Directive.parseBody .oneTarget body := by
  obtain ⟨dash, notGlobal⟩ := isLocal
  obtain ⟨body, trimmed⟩ := List.head?_eq_some_iff.mp dash
  refine ⟨body, ?_⟩
  rw [trimmed] at notGlobal ⊢
  unfold Directive.parse Directive.scopeOf
  split
  · rename_i same
    split at same
    · rename_i global
      cases global
      exact absurd rfl notGlobal
    · rename_i other
      cases other
      cases same
      rfl
    · rename_i noDash
      exact absurd rfl (noDash body)

/-- What a local directive line says is never global. -/
theorem IsLocal.written_global {line : String} (isLocal : IsLocal line) :
    Directive.written .global [line] = [] := by
  obtain ⟨body, parsed⟩ := isLocal.exists_body
  rw [Directive.written_singleton, List.filter_eq_nil_iff]
  intro directive said
  rw [Option.mem_toList, Directive.ofLine?, if_pos isLocal.1, parsed] at said
  cases accepted : Directive.parseBody .oneTarget body with
  | error => rw [accepted] at said; cases said
  | ok other =>
    rw [accepted] at said
    cases said
    rw [Directive.scope_of_parseBody accepted]
    decide

/-- The global directives of lines are those of the lines that are not local. -/
theorem Directive.written_global_filter (lines : List String) :
    written .global (lines.filter fun line => ¬ IsLocal line) = written .global lines := by
  induction lines with
  | nil => rfl
  | cons line rest ih =>
    rw [← List.singleton_append (l := rest), written_append]
    by_cases isLocal : IsLocal line
    · rw [isLocal.written_global, List.singleton_append,
        List.filter_cons_of_neg (by simpa using isLocal), ih, List.nil_append]
    · rw [List.singleton_append, List.filter_cons_of_pos (by simpa using isLocal),
        ← List.singleton_append, written_append, ih]

namespace Stretch

/-- The stretch with more lines above it. -/
def under (stretch : Stretch) (lines : List String) (quiet : ∀ line ∈ lines, ¬ IsTarget line) :
    Stretch where
  above := lines ++ stretch.above
  target := stretch.target
  quiet line member := (List.mem_append.mp member).elim (quiet line) (stretch.quiet line)
  isTarget := stretch.isTarget

theorem lines_under (stretch : Stretch) {lines : List String}
    (quiet : ∀ line ∈ lines, ¬ IsTarget line) :
    (stretch.under lines quiet).lines = lines ++ stretch.lines :=
  List.append_assoc ..

end Stretch

/-- An edit of a text between two targets. Lines that are no targets are put in the place of others,
and those of them that are not local directive lines stay as they are. -/
structure LocalEdit where
  before : List String
  old : List String
  new : List String
  after : List String
  quiet : ∀ line ∈ old, ¬ IsTarget line
  kept : new.filter (fun line => ¬ IsLocal line) = old.filter fun line => ¬ IsLocal line

namespace LocalEdit

def oldText (edit : LocalEdit) : List String :=
  edit.before ++ edit.old ++ edit.after

def newText (edit : LocalEdit) : List String :=
  edit.before ++ edit.new ++ edit.after

/-- The number of targets above the edit, which is the place of the target below it. -/
def place (edit : LocalEdit) : Nat :=
  (edit.before.filter IsTarget).length

/-- A local directive among the edited lines, old or new, is about the option. -/
def Names (edit : LocalEdit) (sectionName key : String) : Prop :=
  ∃ directive ∈ Directive.written .oneTarget (edit.old ++ edit.new),
    directive.sectionName = sectionName ∧ directive.key = key

theorem quiet_new (edit : LocalEdit) : ∀ line ∈ edit.new, ¬ IsTarget line := by
  intro line member
  by_cases isLocal : IsLocal line
  · exact isLocal.not_isTarget
  · have kept : line ∈ edit.new.filter fun line => ¬ IsLocal line :=
      List.mem_filter.mpr ⟨member, decide_eq_true isLocal⟩
    rw [edit.kept] at kept
    exact edit.quiet line (List.mem_filter.mp kept).1

theorem globals_eq (edit : LocalEdit) :
    Directive.written .global edit.new = Directive.written .global edit.old := by
  rw [← Directive.written_global_filter edit.new, edit.kept, Directive.written_global_filter]

end LocalEdit

/-- The items of two texts are the same but for the local directives of one place, which may give
other values to some options. -/
structure Item.AlikeBut (k : Nat) (named : String → String → Prop) (old new : List Item) :
    Prop where
  outer : new.map (fun item => (item.value, item.globals)) =
    old.map fun item => (item.value, item.globals)
  elsewhere : ∀ j, j ≠ k → new[j]? = old[j]?
  here : ∀ {before after : Item}, old[k]? = some before → new[k]? = some after →
    ∀ sectionName key, ¬ named sectionName key →
      Setting.last? after.localSettings sectionName key =
        Setting.last? before.localSettings sectionName key

theorem Item.AlikeBut.refl (k : Nat) (named : String → String → Prop) (items : List Item) :
    AlikeBut k named items items where
  outer := rfl
  elsewhere _ _ := rfl
  here before after sectionName key _ := by
    rw [Option.some.inj (before.symm.trans after)]

theorem Item.AlikeBut.at_length {named : String → String → Prop} {before after : Item}
    (front back : List Item) (value : after.value = before.value)
    (globals : after.globals = before.globals)
    (locals : ∀ sectionName key, ¬ named sectionName key →
      Setting.last? after.localSettings sectionName key =
        Setting.last? before.localSettings sectionName key) :
    AlikeBut front.length named (front ++ before :: back) (front ++ after :: back) where
  outer := by simp only [List.map_append, List.map_cons, value, globals]
  elsewhere j other := by
    rcases Nat.lt_or_gt_of_ne other with above | below
    · rw [List.getElem?_append_left above, List.getElem?_append_left above]
    · obtain ⟨d, rfl⟩ := Nat.exists_eq_add_of_lt below
      rw [List.getElem?_append_right (by omega), List.getElem?_append_right (by omega),
        show front.length + d + 1 - front.length = d + 1 by omega, List.getElem?_cons_succ,
        List.getElem?_cons_succ]
  here atOld atNew := by
    rw [List.getElem?_append_right (Nat.le_refl _), Nat.sub_self, List.getElem?_cons_zero]
      at atOld atNew
    cases atOld
    cases atNew
    exact locals

/-- Lines behind the last target yield no item. -/
theorem Item.ofLines_append_of_quiet (lines : List String) {tail : List String}
    (quiet : ∀ line ∈ tail, ¬ IsTarget line) : ofLines (lines ++ tail) = ofLines lines := by
  obtain ⟨stretches, rest, cut, quietRest⟩ := Stretch.exists_cut lines
  have start : ({} : LineReader).Idle 0 := ⟨rfl, rfl⟩
  have quietBoth : ∀ line ∈ rest ++ tail, ¬ IsTarget line := fun line member =>
    (List.mem_append.mp member).elim (quietRest line) (quiet line)
  rw [cut, List.append_assoc, ofLines, ofLines, LineReader.items_of_cut stretches quietBoth start,
    LineReader.items_of_cut stretches quietRest start]

namespace LocalEdit

/-- An edit below the last target changes no item. -/
theorem items_eq_of_quiet (edit : LocalEdit) (below : ∀ line ∈ edit.after, ¬ IsTarget line) :
    Item.ofLines edit.newText = Item.ofLines edit.oldText := by
  rw [newText, oldText, Item.ofLines_append_of_quiet _ below, Item.ofLines_append_of_quiet _ below,
    Item.ofLines_append_of_quiet _ edit.quiet, Item.ofLines_append_of_quiet _ edit.quiet_new]

theorem Names.last?_eq_none {edit : LocalEdit} {sectionName key : String}
    (unnamed : ¬ edit.Names sectionName key) {lines : List String}
    (edited : ∀ line ∈ lines, line ∈ edit.old ++ edit.new) :
    Setting.last? ((Directive.written .oneTarget lines).map Directive.toSetting)
      sectionName key = none := by
  apply Setting.last?_eq_none
  intro setting member named
  obtain ⟨directive, written, rfl⟩ := List.mem_map.mp member
  refine unnamed ⟨directive, ?_, named⟩
  obtain ⟨accepted, scope⟩ := List.mem_filter.mp written
  obtain ⟨line, inLines, said⟩ := List.mem_filterMap.mp accepted
  exact List.mem_filter.mpr ⟨List.mem_filterMap.mpr ⟨line, edited line inLines, said⟩, scope⟩

/-- An edit of local directive lines changes no item but the one of the target below it, and of that
one only the local directives. -/
theorem items_alikeBut (edit : LocalEdit) :
    Item.AlikeBut edit.place edit.Names (Item.ofLines edit.oldText) (Item.ofLines edit.newText) := by
  obtain ⟨stretches, tail, cutBefore, quietTail⟩ := Stretch.exists_cut edit.before
  obtain ⟨later, rest, cutAfter, quietRest⟩ := Stretch.exists_cut edit.after
  cases later with
  | nil =>
    have below : ∀ line ∈ edit.after, ¬ IsTarget line := by
      rw [cutAfter]
      exact quietRest
    rw [edit.items_eq_of_quiet below]
    exact .refl _ _ _
  | cons stretch more =>
    have quietOver {lines : List String} (quiet : ∀ line ∈ lines, ¬ IsTarget line) :
        ∀ line ∈ tail ++ lines, ¬ IsTarget line := fun line member =>
      (List.mem_append.mp member).elim (quietTail line) (quiet line)
    -- the edited lines lie above the first target below them
    have items {lines : List String} (quiet : ∀ line ∈ lines, ¬ IsTarget line) :
        Item.ofLines (edit.before ++ lines ++ edit.after) = stretches.map Stretch.item ++
          (stretch.under (tail ++ lines) (quietOver quiet)).item :: more.map Stretch.item := by
      have cut := LineReader.items_of_cut
        (stretches ++ stretch.under (tail ++ lines) (quietOver quiet) :: more) quietRest
        (show ({} : LineReader).Idle 0 from ⟨rfl, rfl⟩)
      rw [List.map_append, List.map_cons] at cut
      rw [cutBefore, cutAfter, Item.ofLines, ← cut]
      simp only [List.flatMap_append, List.flatMap_cons, Stretch.lines_under, List.append_assoc]
    have place : edit.place = (stretches.map Stretch.item).length := by
      rw [LocalEdit.place, cutBefore, Stretch.filter_cut quietTail, List.length_map,
        List.length_map]
    rw [oldText, newText, items edit.quiet, items edit.quiet_new, place]
    refine .at_length _ _ (by simp only [Stretch.item_value]; rfl) ?globals ?locals
    case globals =>
      simp only [Stretch.item_globals, Stretch.globals, Stretch.under, Directive.written_append,
        edit.globals_eq]
    case locals =>
      intro sectionName key unnamed
      have none {lines : List String} (edited : ∀ line ∈ lines, line ∈ edit.old ++ edit.new) :=
        Names.last?_eq_none unnamed edited
      simp only [Item.localSettings, Stretch.item_locals, Stretch.locals, Stretch.under,
        Directive.written_append, List.map_append, Setting.last?_append,
        none fun _ => List.mem_append_left _, none fun _ => List.mem_append_right _]

end LocalEdit
end BatchFetch
