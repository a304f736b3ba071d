import BatchFetch.Proofs.Files.Growth
import BatchFetch.Proofs.Files.Paths

namespace BatchFetch.FileSystem

/-- Whatever is somewhere is in a directory. Nodes for which this fails make up no file system. -/
def IsTree (fs : FileSystem) : Prop :=
  ∀ (place : Place) (name : String), fs.node? (place ++ [name]) ≠ none → fs.node? place = some .dir

theorem isTree_empty : IsTree {} := by
  intro place name present
  refine absurd ?_ present
  rw [node?, if_neg (List.append_ne_nil_of_right_ne_nil _ (List.cons_ne_nil _ _))]
  rfl

/-- The place of a path in which no component is `..`. -/
def placeOf (fs : FileSystem) (path : String) : Place :=
  fs.origin path ++ Path.components path

variable {fs after : FileSystem} {path : String}

theorem Leads.place_eq {start : Place} {names : List String} {target : Target}
    (leads : Leads fs start names target) (noUp : ".." ∉ names) :
    target.place = start ++ names.filter fun name => !Path.isIdle name := by
  induction leads with
  | here place => exact (List.append_nil place).symm
  | idle idle _ ih =>
    rw [ih fun up => noUp (List.mem_cons_of_mem _ up), List.filter_cons_of_neg (by simp [idle])]
  | up => exact absurd List.mem_cons_self noUp
  | enter isName _ _ ih =>
    rw [ih fun up => noUp (List.mem_cons_of_mem _ up),
      List.filter_cons_of_pos (by simp [isName.1]), List.append_assoc, List.singleton_append]
  | file isName _ => rw [List.filter_cons_of_pos (by simp [isName.1])]; rfl
  | @missing place name rest isName _ empty =>
    have idle : ∀ piece ∈ rest, ¬ (!Path.isIdle piece) = true := by
      intro piece member
      have isEmpty := List.all_eq_true.mp empty piece member
      simp [Path.isIdle, isEmpty]
    rw [List.filter_cons_of_pos (by simp [isName.1]), List.filter_eq_nil_iff.mpr idle]
    rfl

theorem place_of_locate {target : Target} (located : fs.locate path = .ok target)
    (noUp : ".." ∉ Path.pieces path) : target.place = fs.placeOf path :=
  (locate_ok_iff.mp located).2.place_eq noUp

def Target.node? : Target → Option Node
  | dir _ => some .dir
  | file _ content => some (.file content)
  | missing _ _ => none

/-- Names of which the last stands for something tell what is at their place. -/
theorem Leads.node?_eq {start : Place} {front : List String} {last : String} {target : Target}
    (leads : Leads fs start (front ++ [last]) target) (notIdle : Path.isIdle last = false)
    (notUp : last ≠ "..") : fs.node? target.place = target.node? := by
  induction front generalizing start with
  | nil =>
    cases leads with
    | idle idle => exact absurd (notIdle.symm.trans idle) Bool.false_ne_true
    | up => exact absurd rfl notUp
    | enter _ dir later =>
      cases later
      exact dir
    | file _ there => exact there
    | missing _ absent _ => exact absent
  | cons name rest ih =>
    rw [List.cons_append] at leads
    generalize names : rest ++ [last] = more at leads
    have some : more ≠ [] := names ▸ List.append_ne_nil_of_right_ne_nil _ (List.cons_ne_nil _ _)
    cases leads with
    | idle _ later => exact ih (names ▸ later)
    | up later => exact ih (names ▸ later)
    | enter _ _ later => exact ih (names ▸ later)
    | file => exact absurd rfl some
    | missing _ absent _ => exact absent

/-- Names that lead somewhere are not too long. -/
theorem Leads.isName {start : Place} {names : List String} {target : Target}
    (leads : Leads fs start names target) (noUp : ".." ∉ names) :
    ∀ name ∈ names, Path.isIdle name = true ∨ IsName name := by
  induction leads with
  | here => exact fun _ absent => absurd absent List.not_mem_nil
  | idle idle _ ih =>
    exact List.forall_mem_cons.mpr ⟨Or.inl idle, ih fun up => noUp (List.mem_cons_of_mem _ up)⟩
  | up => exact absurd List.mem_cons_self noUp
  | enter isName _ _ ih =>
    exact List.forall_mem_cons.mpr
      ⟨Or.inr isName, ih fun up => noUp (List.mem_cons_of_mem _ up)⟩
  | file isName _ =>
    exact List.forall_mem_cons.mpr ⟨Or.inr isName, fun _ absent => absurd absent List.not_mem_nil⟩
  | missing isName _ empty =>
    refine List.forall_mem_cons.mpr ⟨Or.inr isName, fun piece member => Or.inl ?_⟩
    have isEmpty := List.all_eq_true.mp empty piece member
    simp [Path.isIdle, isEmpty]

theorem IsTree.dir_above (tree : fs.IsTree) {place : Place} {below : List String}
    (some : below ≠ []) (present : fs.node? (place ++ below) ≠ none) :
    fs.node? place = .some .dir := by
  induction below using List.reverseRecOn with
  | nil => exact absurd rfl some
  | append_singleton front last ih =>
    rw [← List.append_assoc] at present
    have dir := tree _ _ present
    by_cases none : front = []
    · rw [none, List.append_nil] at dir
      exact dir
    · exact ih none (by rw [dir]; exact Option.some_ne_none _)

/-- In a tree, names lead to whatever is at their place. -/
theorem IsTree.leads (tree : fs.IsTree) {start : Place} {front : List String} {last : String}
    (names : ∀ name ∈ front, Path.isIdle name = true ∨ IsName name) (isName : IsName last)
    (present : fs.node? (start ++ (front.filter (fun name => !Path.isIdle name) ++ [last])) ≠ none) :
    ∃ target, Leads fs start (front ++ [last]) target ∧ target.isThere = true := by
  induction front generalizing start with
  | nil =>
    rw [List.filter_nil, List.nil_append] at present
    cases there : fs.node? (start ++ [last]) with
    | none => exact absurd there present
    | some node =>
      cases node with
      | dir => exact ⟨_, .enter isName there (.here _), rfl⟩
      | file content => exact ⟨_, .file isName there, rfl⟩
  | cons name rest ih =>
    have later : ∀ name ∈ rest, Path.isIdle name = true ∨ IsName name := fun name member =>
      names name (List.mem_cons_of_mem _ member)
    rcases names name List.mem_cons_self with idle | isComponent
    · rw [List.filter_cons_of_neg (by simp [idle])] at present
      obtain ⟨target, leads, there⟩ := ih later present
      exact ⟨target, .idle idle leads, there⟩
    · have next : start ++ ((name :: rest).filter (fun name => !Path.isIdle name) ++ [last]) =
          (start ++ [name]) ++ (rest.filter (fun name => !Path.isIdle name) ++ [last]) := by
        rw [List.filter_cons_of_pos (by simp [isComponent.1])]
        simp
      rw [next] at present
      have dir := tree.dir_above
        (List.append_ne_nil_of_right_ne_nil _ (List.cons_ne_nil last [])) present
      obtain ⟨target, leads, there⟩ := ih later present
      exact ⟨target, .enter isComponent dir leads, there⟩

/-- Where nothing exists at a path that could be written to later, nothing is at its place. -/
theorem IsTree.absent (tree : fs.IsTree) {base name : String} (plain : Path.IsPlain name)
    (noUp : ".." ∉ Path.pieces base) (missing : fs.pathExists (Path.join base name) = false)
    (later : ∃ target, after.locate (Path.join base name) = .ok target) :
    fs.node? (fs.placeOf (Path.join base name)) = none := by
  obtain ⟨target, located⟩ := later
  obtain ⟨isPath, leads⟩ := locate_ok_iff.mp located
  have noUpBelow : ".." ∉ Path.pieces (Path.join base name) := mt (Path.up_of_join plain) noUp
  have names := leads.isName noUpBelow
  obtain ⟨front, cut, _, _⟩ := Path.exists_pieces_join plain base
  rw [cut] at names
  have isName : IsName name := by
    rcases names name (List.mem_append_right _ List.mem_cons_self) with idle | isName
    · rw [plain.notIdle] at idle
      cases idle
    · exact isName
  by_contra present
  have kept : [name].filter (fun piece => !Path.isIdle piece) = [name] :=
    List.filter_cons_of_pos (by rw [plain.notIdle]; rfl)
  rw [placeOf, Path.components, cut, List.filter_append, kept] at present
  obtain ⟨target, leads, there⟩ := tree.leads
    (fun piece member => names piece (List.mem_append_left _ member)) isName present
  have exists_ := pathExists_iff.mpr
    ⟨target, locate_ok_iff.mpr ⟨isPath, by rw [cut]; exact leads⟩, there⟩
  rw [missing] at exists_
  cases exists_

theorem Grows.placeOf (grows : Grows fs after) (path : String) :
    after.placeOf path = fs.placeOf path := by
  rw [FileSystem.placeOf, FileSystem.placeOf, origin, origin, grows.current]

/-- Whether or not the file is written to its end, it is the only place that changes. -/
theorem node?_of_write {bytes : Bytes} {result : Except Fault Unit}
    (wrote : fs.write path bytes = (result, after)) (noUp : ".." ∉ Path.pieces path) {place : Place}
    (differs : place ≠ fs.placeOf path) : after.node? place = fs.node? place := by
  have put {target : Target} (located : fs.locate path = .ok target) (now : Bytes) :
      (fs.asked.put target.place (.file now)).node? place = fs.node? place := by
    rw [place_of_locate located noUp]
    exact node?_put_of_ne differs fs.asked _
  cases wrote_write wrote with
  | nowhere => rfl
  | refused => rfl
  | broken _ located => exact put located _
  | whole located => exact put located _

theorem node?_of_makeDirs {paths : List String} {place : Place}
    (noUp : ∀ path ∈ paths, ".." ∉ Path.pieces path)
    (differs : ∀ path ∈ paths, place ≠ fs.placeOf path) :
    (fs.makeDirs paths).2.node? place = fs.node? place := by
  suffices kept : fs.Grows (fs.makeDirs paths).2 ∧
      (fs.makeDirs paths).2.node? place = fs.node? place from kept.2
  refine makeDirs_induction (motive := fun made => fs.Grows made ∧ made.node? place = fs.node? place)
    ⟨.refl fs, rfl⟩ (fun before kept => ⟨kept.1.trans before.grows_asked, kept.2⟩) ?_
  rintro before path there slash member ⟨grows, same⟩ missing
  have new : there = before.placeOf path := place_of_locate missing (noUp path member)
  have elsewhere : place ≠ there := new ▸ grows.placeOf path ▸ differs path member
  exact ⟨grows.trans (grows_put_missing missing),
    (node?_put_of_ne elsewhere before.asked .dir).trans same⟩

theorem placeOf_join {name : String} (plain : Path.IsPlain name) (fs : FileSystem) (base : String) :
    fs.placeOf (Path.join base name) = fs.placeOf base ++ [name] := by
  rw [placeOf, placeOf, origin, origin, Path.isAbsolute_join plain.relative,
    Path.components_join plain, List.append_assoc]

/-- The path of a name below a directory tells what is at its place. -/
theorem node?_placeOf_join {base name : String} (plain : Path.IsPlain name)
    (noUp : ".." ∉ Path.pieces base) {target : Target}
    (located : fs.locate (Path.join base name) = .ok target) :
    fs.node? (fs.placeOf (Path.join base name)) = target.node? := by
  have same := place_of_locate located (mt (Path.up_of_join plain) noUp)
  obtain ⟨_, leads⟩ := locate_ok_iff.mp located
  obtain ⟨front, cut, _, _⟩ := Path.exists_pieces_join plain base
  rw [cut] at leads
  rw [← same, leads.node?_eq plain.notIdle plain.notUp]

theorem placeOf_join_ne_nil {name : String} (plain : Path.IsPlain name) (fs : FileSystem)
    (base : String) : fs.placeOf (Path.join base name) ≠ [] := by
  rw [placeOf_join plain]
  exact List.append_ne_nil_of_right_ne_nil _ (List.cons_ne_nil _ _)

/-- Something is at the place of a path that exists. -/
theorem node?_of_pathExists {base name : String} (plain : Path.IsPlain name)
    (noUp : ".." ∉ Path.pieces base) (present : fs.pathExists (Path.join base name) = true) :
    fs.node? (fs.placeOf (Path.join base name)) ≠ none := by
  obtain ⟨target, located, there⟩ := pathExists_iff.mp present
  rw [node?_placeOf_join plain noUp located]
  cases target with
  | dir => exact Option.some_ne_none _
  | file => exact Option.some_ne_none _
  | missing => cases there

theorem node?_of_write_self {base name : String} {bytes : Bytes} (plain : Path.IsPlain name)
    (noUp : ".." ∉ Path.pieces base) (wrote : fs.write (Path.join base name) bytes = (.ok (), after)) :
    after.node? (fs.placeOf (Path.join base name)) = some (.file bytes) := by
  obtain ⟨target, located, _, rfl⟩ := write_ok wrote
  rw [place_of_locate located (mt (Path.up_of_join plain) noUp)]
  exact node?_put_self (placeOf_join_ne_nil plain fs base) fs.asked _

/-- The file at the place of a path that exists is what the path is read as. -/
theorem read_of_node? {base name : String} {bytes : Bytes} (plain : Path.IsPlain name)
    (noUp : ".." ∉ Path.pieces base) (present : fs.pathExists (Path.join base name) = true)
    (file : fs.node? (fs.placeOf (Path.join base name)) = some (.file bytes)) :
    fs.read (Path.join base name) = .ok bytes := by
  obtain ⟨target, located, there⟩ := pathExists_iff.mp present
  rw [node?_placeOf_join plain noUp located] at file
  cases target with
  | dir => cases file
  | missing => cases there
  | file place content =>
    cases file
    rw [read, openRead, located]
    rfl

/-- The directories that are created for a name lie above the place of each name beside it. -/
theorem node?_of_createDirAll {base name other : String} (plain : Path.IsPlain name)
    (plainToo : Path.IsPlain other) (noUp : ".." ∉ Path.pieces base) (fs : FileSystem) :
    (fs.createDirAll ((Path.parent? (Path.join base other)).getD "")).2.node?
        (fs.placeOf (Path.join base name)) =
      fs.node? (fs.placeOf (Path.join base name)) := by
  cases found : Path.parent? (Path.join base other) with
  | none => rfl
  | some parent =>
    obtain ⟨names, _, _⟩ := (Path.parentOf_of_parent? found).eq
    rw [Option.getD_some]
    rw [Path.components_join plainToo, List.dropLast_concat] at names
    have above {path : String}
        (member : path ∈ ancestors parent.length parent) : Path.Above path (Path.join base other) :=
      (Path.above_of_mem_ancestors member).trans (Path.above_of_parent? found)
    refine node?_of_makeDirs ?_ ?_
    · intro path member up
      exact noUp (Path.up_of_join plainToo ((above member).up up))
    · intro path member same
      have start : fs.origin path = fs.origin base := by
        rw [origin, origin, (above member).isAbsolute, Path.isAbsolute_join plainToo.relative]
      have shorter := (Path.above_of_mem_ancestors member).components.length_le
      have lengths := congrArg List.length same
      rw [placeOf_join plain, placeOf, placeOf, start] at lengths
      rw [names] at shorter
      simp only [List.length_append, List.length_singleton] at lengths
      omega

end BatchFetch.FileSystem
