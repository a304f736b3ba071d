import BatchFetch.Proofs.Files.Additions

namespace BatchFetch.FileSystem

variable {fs made after : FileSystem} {path : String}

/-- Everything that is there stays, with its content. -/
structure Keeps (fs after : FileSystem) : Prop where
  current : after.current = fs.current
  node : ∀ place node, fs.node? place = some node → after.node? place = some node

theorem Keeps.refl (fs : FileSystem) : Keeps fs fs :=
  ⟨rfl, fun _ _ present => present⟩

theorem Keeps.trans {last : FileSystem} (first : Keeps fs after) (second : Keeps after last) :
    Keeps fs last :=
  ⟨second.current.trans first.current, fun place node present =>
    second.node place node (first.node place node present)⟩

theorem Keeps.grows (keeps : Keeps fs after) : fs.Grows after where
  current := keeps.current
  dir place := keeps.node place .dir
  file place content present := ⟨content, keeps.node place _ present⟩

theorem keeps_asked (fs : FileSystem) : Keeps fs fs.asked :=
  ⟨rfl, fun _ _ present => present⟩

theorem keeps_put {place : Place} (absent : fs.node? place = none) (node : Node) :
    Keeps fs (fs.put place node) := by
  refine ⟨rfl, fun other old present => ?_⟩
  rw [node?_put_of_ne ?_ fs node, present]
  rintro rfl
  rw [absent] at present
  cases present

theorem Keeps.locate_file (keeps : Keeps fs after) {place : Place} {content : Bytes}
    (located : fs.locate path = .ok (.file place content)) :
    after.locate path = .ok (.file place content) := by
  obtain ⟨isPath, leads⟩ := locate_ok_iff.mp located
  have file : ∀ there bytes, Target.file place content = .file there bytes →
      after.node? there = some (.file bytes) := by
    rintro _ _ ⟨⟩
    exact keeps.node _ _ (leads.node.1 _ _ rfl)
  exact locate_ok_iff.mpr ⟨isPath,
    keeps.grows.origin path ▸ leads.of_kept rfl keeps.grows.dir file⟩

/-- The nodes form a tree, and the current directory is one of its directories. -/
structure Stands (fs : FileSystem) : Prop where
  tree : fs.IsTree
  current : fs.node? fs.current = some .dir

theorem Stands.asked (stands : fs.Stands) : fs.asked.Stands :=
  ⟨stands.tree, stands.current⟩

theorem Stands.put (stands : fs.Stands) {parent : Place} {name : String}
    (absent : fs.node? (parent ++ [name]) = none) (dir : fs.node? parent = some .dir)
    (node : Node) : (fs.put (parent ++ [name]) node).Stands := by
  have keeps := keeps_put absent node
  refine ⟨fun place child present => ?_, keeps.node _ _ stands.current⟩
  by_cases same : place ++ [child] = parent ++ [name]
  · obtain ⟨rfl, _⟩ := List.append_inj' same rfl
    exact keeps.node _ _ dir
  · rw [node?_put_of_ne same] at present
    exact keeps.node _ _ (stands.tree place child present)

/-- The directory in which a missing name is looked for is there. -/
theorem Leads.exists_parent (tree : fs.IsTree) {start place : Place} {names : List String}
    {target : Target} {slash : Bool} (leads : Leads fs start names target)
    (missing : target = .missing place slash) (dir : fs.node? start = some .dir) :
    ∃ parent name, place = parent ++ [name] ∧ fs.node? parent = some .dir := by
  induction leads with
  | here => cases missing
  | idle _ _ ih => exact ih missing dir
  | @up start _ _ _ ih =>
    refine ih missing ?_
    cases start using List.reverseRecOn with
    | nil => exact dir
    | append_singleton front last =>
      rw [List.dropLast_concat]
      exact tree front last (by rw [dir]; exact Option.some_ne_none _)
  | enter _ there _ ih => exact ih missing there
  | file => cases missing
  | missing =>
    cases missing
    exact ⟨_, _, rfl, dir⟩

theorem Stands.origin (stands : fs.Stands) (path : String) :
    fs.node? (fs.origin path) = some .dir := by
  rw [FileSystem.origin]
  split
  · rfl
  · exact stands.current

/-- What is put where nothing was keeps everything else. -/
theorem Stands.put_missing (stands : fs.Stands) {place : Place} {slash : Bool}
    (located : fs.locate path = .ok (.missing place slash)) (node : Node) :
    fs.Keeps (fs.asked.put place node) ∧ (fs.asked.put place node).Stands := by
  obtain ⟨_, leads⟩ := locate_ok_iff.mp located
  obtain ⟨absent, _⟩ := leads.node.2 place slash rfl
  obtain ⟨parent, name, rfl, dir⟩ := leads.exists_parent stands.tree rfl (stands.origin path)
  have free : fs.asked.node? (parent ++ [name]) = none := absent
  exact ⟨fs.keeps_asked.trans (keeps_put free node), stands.asked.put free dir node⟩

/-- At most directories are new. -/
structure AddsDirs (fs made : FileSystem) : Prop where
  keeps : fs.Keeps made
  stands : made.Stands
  faults : made.faults <:+ fs.faults
  file : ∀ place content, made.node? place = some (.file content) →
    fs.node? place = some (.file content)

theorem AddsDirs.refl (stands : fs.Stands) : AddsDirs fs fs :=
  ⟨.refl fs, stands, List.suffix_rfl, fun _ _ present => present⟩

theorem AddsDirs.asked (adds : AddsDirs fs made) : AddsDirs fs made.asked :=
  ⟨adds.keeps.trans made.keeps_asked, adds.stands.asked, (List.tail_suffix _).trans adds.faults,
    adds.file⟩

theorem AddsDirs.put (adds : AddsDirs fs made) {place : Place} {slash : Bool}
    (located : made.locate path = .ok (.missing place slash)) :
    AddsDirs fs (made.asked.put place .dir) := by
  obtain ⟨keeps, stands⟩ := adds.stands.put_missing located .dir
  obtain ⟨_, leads⟩ := locate_ok_iff.mp located
  refine ⟨adds.keeps.trans keeps, stands, adds.asked.faults, fun other content present => ?_⟩
  by_cases same : other = place
  · rw [same, node?_put_self (leads.node.2 place slash rfl).2] at present
    cases present
  · rw [node?_put_of_ne same] at present
    exact adds.file other content present

theorem Stands.createDirAll (stands : fs.Stands) {result : Except IoError Unit}
    (created : fs.createDirAll path = (result, made)) : AddsDirs fs made := by
  have adds : AddsDirs fs (fs.createDirAll path).2 :=
    makeDirs_induction (.refl stands) (fun _ adds => adds.asked)
      fun _ _ _ _ _ adds missing => adds.put missing
  rw [created] at adds
  exact adds

theorem Arrives.of_suffix {bytes left : Bytes} {failure : Option Fault}
    (arrives : made.Arrives bytes failure left) (faults : made.faults <:+ fs.faults) :
    fs.Arrives bytes failure left := by
  cases arrives with
  | whole => exact .whole
  | part among => exact .part (faults.mem among)

/-- Names that lead to a file did so before there were new directories, if the file was there. -/
theorem Leads.file_before (tree : fs.IsTree) {start place : Place} {names : List String}
    {target : Target} {content : Bytes} (leads : Leads made start names target)
    (noUp : ".." ∉ names) (isFile : target = .file place content)
    (before : fs.node? place = some (.file content)) : Leads fs start names target := by
  induction leads with
  | here => cases isFile
  | idle idle _ ih => exact .idle idle (ih (fun up => noUp (List.mem_cons_of_mem _ up)) isFile)
  | up => exact absurd List.mem_cons_self noUp
  | @enter start name rest target isName dir later ih =>
    have noUpLater : ".." ∉ rest := fun up => noUp (List.mem_cons_of_mem _ up)
    have below := later.place_eq noUpLater
    have there := later.node.1 place content isFile
    rw [isFile, Target.place] at below
    refine .enter isName ?_ (ih noUpLater isFile)
    have some : rest.filter (fun name => !Path.isIdle name) ≠ [] := by
      intro none
      rw [below, none, List.append_nil, dir] at there
      cases there
    refine tree.dir_above some ?_
    rw [← below, before]
    exact Option.some_ne_none _
  | file isName _ =>
    cases isFile
    exact .file isName before
  | missing => cases isFile

/-- A path without a `..` that did not exist is written to where nothing was. -/
theorem AddsDirs.missing (stands : fs.Stands) (adds : AddsDirs fs made)
    (noUp : ".." ∉ Path.pieces path) (absent : fs.pathExists path = false) {target : Target}
    (located : made.locate path = .ok target) (writable : target.isWritable = true) :
    target = .missing (fs.placeOf path) false := by
  have place := (place_of_locate located noUp).trans (adds.keeps.grows.placeOf path)
  rw [← place]
  cases target with
  | dir => cases writable
  | file there content =>
    obtain ⟨isPath, leads⟩ := locate_ok_iff.mp located
    have before := adds.file there content (leads.node.1 there content rfl)
    have old := leads.file_before stands.tree noUp rfl before
    rw [adds.keeps.grows.origin path] at old
    have exists_ := pathExists_iff.mpr ⟨_, locate_ok_iff.mpr ⟨isPath, old⟩, rfl⟩
    exact absurd (absent.symm.trans exists_) Bool.false_ne_true
  | missing there slash =>
    cases slash with
    | true => cases writable
    | false => rfl

end BatchFetch.FileSystem
