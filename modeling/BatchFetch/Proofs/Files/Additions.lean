import BatchFetch.Proofs.Files.Places

namespace BatchFetch

/-- The paths above a path: its parent, the parent of that, and so on. -/
inductive Path.Ancestor (path : String) : String → Prop
  | parent {above : String} : Path.parent? path = some above → Ancestor path above
  | outer {above outer : String} : Ancestor path above → Path.parent? above = some outer →
      Ancestor path outer

theorem Path.Ancestor.of_mem_ancestors {fuel : Nat} {path parent above : String}
    (ancestor : Path.Ancestor path parent) (member : above ∈ FileSystem.ancestors fuel parent) :
    Path.Ancestor path above := by
  induction fuel generalizing parent with
  | zero => cases member
  | succ fuel ih =>
    rw [FileSystem.ancestors] at member
    split_ifs at member with empty
    · cases member
    · rcases List.mem_cons.mp member with rfl | later
      · exact ancestor
      · cases found : Path.parent? parent with
        | none =>
          rw [found] at later
          cases later
        | some outer =>
          rw [found] at later
          exact ih (ancestor.outer found) later

namespace FileSystem

variable {fs after : FileSystem} {path : String}

/-- Names lead to the same target when the directories on the way are there, and the target is. -/
theorem Leads.of_kept {start : Place} {names : List String} {target : Target}
    (leads : Leads fs start names target) (there : target.isThere = true)
    (dirs : ∀ place, fs.node? place = some .dir → after.node? place = some .dir)
    (file : ∀ place content, target = .file place content →
      after.node? place = some (.file content)) :
    Leads after start names target := by
  induction leads with
  | here place => exact .here place
  | idle idle _ ih => exact .idle idle (ih there file)
  | up _ ih => exact .up (ih there file)
  | enter isName dir _ ih => exact .enter isName (dirs _ dir) (ih there file)
  | file isName _ => exact .file isName (file _ _ rfl)
  | missing => cases there

theorem Grows.leads_dir (grows : Grows fs after) {start place : Place} {names : List String}
    (leads : Leads fs start names (.dir place)) : Leads after start names (.dir place) :=
  leads.of_kept rfl grows.dir fun _ _ absurdity => (nomatch absurdity)

theorem Grows.origin (grows : Grows fs after) (path : String) : after.origin path = fs.origin path := by
  rw [FileSystem.origin, FileSystem.origin, grows.current]

theorem Grows.locate_dir (grows : Grows fs after) {place : Place}
    (located : fs.locate path = .ok (.dir place)) : after.locate path = .ok (.dir place) := by
  obtain ⟨isPath, leads⟩ := locate_ok_iff.mp located
  exact locate_ok_iff.mpr ⟨isPath, grows.origin path ▸ grows.leads_dir leads⟩

/-- What is gone was not there. -/
theorem Grows.none_of_none (grows : Grows fs after) {place : Place}
    (none : after.node? place = none) : fs.node? place = .none := by
  cases before : fs.node? place with
  | none => rfl
  | some node =>
    cases node with
    | dir =>
      rw [grows.dir place before] at none
      cases none
    | file content =>
      obtain ⟨now, file⟩ := grows.file place content before
      rw [file] at none
      cases none

/-- Once a directory is put where names lead to nothing, they lead to it. -/
theorem Leads.put_dir {start : Place} {names : List String} {target : Target}
    (leads : Leads fs start names target) {place : Place} {slash : Bool}
    (missing : target = .missing place slash) :
    Leads (fs.put place .dir) start names (.dir place) := by
  have absent : fs.node? place = none := (leads.node.2 place slash missing).1
  induction leads with
  | here => cases missing
  | idle idle _ ih => exact .idle idle (ih missing)
  | up _ ih => exact .up (ih missing)
  | enter isName dir _ ih =>
    refine .enter isName ?_ (ih missing)
    rw [node?_put_of_ne ?_ fs, dir]
    intro same
    rw [← same, dir] at absent
    cases absent
  | file => cases missing
  | @missing start name rest isName _ empty =>
    cases missing
    have some : start ++ [name] ≠ [] := List.append_ne_nil_of_right_ne_nil _ (List.cons_ne_nil _ _)
    refine .enter isName (node?_put_self some fs _) ?_
    clear absent
    -- Only slashes follow the name.
    induction rest with
    | nil => exact .here _
    | cons piece rest ih =>
      rw [List.all_cons, Bool.and_eq_true] at empty
      exact .idle (by simp [Path.isIdle, empty.1]) (ih empty.2)

/-- A place at which nothing was, and now a directory is that one of these paths leads to. -/
structure AddsDir (fs after : FileSystem) (paths : List String) (place : Place) : Prop where
  before : fs.node? place = none
  now : after.node? place = some .dir
  located : ∃ path ∈ paths, after.locate path = .ok (.dir place)

theorem AddsDir.mono {middle last : FileSystem} {paths more : List String} {place : Place}
    (adds : AddsDir after middle paths place) (grows : Grows fs after) (later : Grows middle last)
    (among : ∀ path ∈ paths, path ∈ more) : AddsDir fs last more place := by
  obtain ⟨before, now, path, member, located⟩ := adds
  exact ⟨grows.none_of_none before, later.dir place now, path, among path member,
    later.locate_dir located⟩

theorem addsDir_of_put {there place : Place} {slash : Bool}
    (missing : fs.locate path = .ok (.missing there slash))
    (changed : (fs.asked.put there .dir).node? place ≠ fs.node? place) :
    AddsDir fs (fs.asked.put there .dir) [path] place := by
  obtain ⟨isPath, leads⟩ := locate_ok_iff.mp (locate_asked fs path ▸ missing)
  obtain ⟨absent, some⟩ := leads.node.2 there slash rfl
  obtain rfl : place = there := by
    by_contra differs
    exact changed (node?_put_of_ne differs fs.asked .dir)
  exact ⟨absent, node?_put_self some fs.asked .dir, path, List.mem_singleton_self path,
    locate_ok_iff.mpr ⟨isPath, leads.put_dir rfl⟩⟩

/-- Creating directories changes no more than that some of them are new. -/
theorem addsDir_of_makeDirs {paths : List String} {place : Place}
    (changed : (fs.makeDirs paths).2.node? place ≠ fs.node? place) :
    AddsDir fs (fs.makeDirs paths).2 paths place := by
  suffices adds : fs.Grows (fs.makeDirs paths).2 ∧
      ((fs.makeDirs paths).2.node? place ≠ fs.node? place →
        AddsDir fs (fs.makeDirs paths).2 paths place) from adds.2 changed
  refine makeDirs_induction (motive := fun made => fs.Grows made ∧
    (made.node? place ≠ fs.node? place → AddsDir fs made paths place)) ⟨.refl fs, absurd rfl⟩
    (fun before kept => ⟨kept.1.trans before.grows_asked, fun differs =>
      (kept.2 differs).mono (.refl fs) before.grows_asked fun _ among => among⟩) ?_
  rintro before path there slash member ⟨grows, adds⟩ missing
  have grown := grows_put_missing missing
  refine ⟨grows.trans grown, fun differs => ?_⟩
  by_cases same : before.node? place = fs.node? place
  · refine (addsDir_of_put missing (same ▸ differs)).mono grows (.refl _) fun other only => ?_
    exact List.mem_singleton.mp only ▸ member
  · exact (adds same).mono (.refl fs) grown fun _ among => among

/-- The directories that are created for a file lie above it. -/
theorem exists_ancestor_of_createDirAll {place : Place}
    (changed : (fs.createDirAll ((Path.parent? path).getD "")).2.node? place ≠ fs.node? place) :
    ∃ above, Path.Ancestor path above ∧
      AddsDir fs (fs.createDirAll ((Path.parent? path).getD "")).2 [above] place := by
  cases found : Path.parent? path with
  | none =>
    rw [found] at changed
    exact absurd rfl changed
  | some parent =>
    rw [found, Option.getD_some, createDirAll] at changed
    obtain ⟨before, now, above, member, located⟩ := addsDir_of_makeDirs changed
    exact ⟨above, (Path.Ancestor.parent found).of_mem_ancestors member,
      ⟨before, now, above, List.mem_singleton_self above, located⟩⟩

theorem Leads.exists_folder {start : Place} {front : List String} {name : String} {target : Target}
    (leads : Leads fs start (front ++ [name]) target) (plain : Path.IsPlain name) :
    ∃ folder, Leads fs start front (.dir folder) ∧ target.place = folder ++ [name] := by
  induction front generalizing start with
  | nil =>
    refine ⟨start, .here start, ?_⟩
    cases leads with
    | idle idle => exact absurd (plain.notIdle.symm.trans idle) Bool.false_ne_true
    | up => exact absurd rfl plain.notUp
    | enter _ _ later =>
      cases later
      rfl
    | file => rfl
    | missing => rfl
  | cons piece rest ih =>
    rw [List.cons_append] at leads
    generalize names : rest ++ [name] = more at leads
    cases leads with
    | idle idle later =>
      obtain ⟨folder, first, place⟩ := ih (names ▸ later)
      exact ⟨folder, .idle idle first, place⟩
    | up later =>
      obtain ⟨folder, first, place⟩ := ih (names ▸ later)
      exact ⟨folder, .up first, place⟩
    | enter isName dir later =>
      obtain ⟨folder, first, place⟩ := ih (names ▸ later)
      exact ⟨folder, .enter isName dir first, place⟩
    | file => exact absurd names (List.append_ne_nil_of_right_ne_nil _ (List.cons_ne_nil _ _))
    | missing _ _ empty =>
      rw [← names, List.all_append, List.all_cons, Bool.and_eq_true, Bool.and_eq_true] at empty
      have idle : Path.isIdle name = true := by simp [Path.isIdle, empty.2.1]
      exact absurd (plain.notIdle.symm.trans idle) Bool.false_ne_true

theorem Leads.slash {start folder : Place} {names : List String} {target : Target}
    (leads : Leads fs start names target) (dir : target = .dir folder) :
    Leads fs start (names ++ [""]) (.dir folder) := by
  induction leads with
  | here =>
    cases dir
    exact .idle rfl (.here folder)
  | idle idle _ ih => exact .idle idle (ih dir)
  | up _ ih => exact .up (ih dir)
  | enter isName there _ ih => exact .enter isName there (ih dir)
  | file => cases dir
  | missing => cases dir

/-- The path of a name below a directory leads to a direct child of that directory. -/
theorem exists_folder_of_locate {base name : String} (plain : Path.IsPlain name) {target : Target}
    (located : fs.locate (Path.join base name) = .ok target) :
    ∃ folder, Leads fs (fs.origin base) (Path.pieces base) (.dir folder) ∧
      target.place = folder ++ [name] := by
  obtain ⟨_, leads⟩ := locate_ok_iff.mp located
  have start : fs.origin (Path.join base name) = fs.origin base := by
    rw [origin, origin, Path.isAbsolute_join plain.relative]
  obtain ⟨front, cut, same | longer⟩ := Path.exists_front_join plain base
  · rw [start, cut] at leads
    obtain ⟨folder, first, place⟩ := leads.exists_folder plain
    exact ⟨folder, same ▸ first, place⟩
  · rw [start, cut] at leads
    obtain ⟨folder, first, place⟩ := leads.exists_folder plain
    exact ⟨folder, longer ▸ first.slash rfl, place⟩

end FileSystem
end BatchFetch
