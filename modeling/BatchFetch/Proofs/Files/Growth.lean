import BatchFetch.Files.System
import BatchFetch.Proofs.Results

namespace BatchFetch.FileSystem

theorem lookup_cons_eq (place other : Place) (node : Node) (rest : List (Place × Node)) :
    ((place, node) :: rest).lookup other =
      if other = place then some node else rest.lookup other := by
  rw [List.lookup_cons]
  by_cases same : other = place
  · rw [if_pos same, same, BEq.rfl]
  · rw [if_neg same, beq_false_of_ne same]

theorem lookup_putNode (place other : Place) (node : Node) (nodes : List (Place × Node)) :
    (putNode place node nodes).lookup other =
      if other = place then some node else nodes.lookup other := by
  induction nodes with
  | nil => rw [putNode, lookup_cons_eq]
  | cons entry rest ih =>
    obtain ⟨p, old⟩ := entry
    rw [putNode]
    by_cases found : p = place
    · rw [if_pos found, lookup_cons_eq, lookup_cons_eq, found]
      by_cases same : other = place
      · rw [if_pos same, if_pos same]
      · rw [if_neg same, if_neg same, if_neg same]
    · rw [if_neg found, lookup_cons_eq, lookup_cons_eq, ih]
      by_cases same : other = place
      · rw [if_pos same, if_pos same, if_neg fun equal => found (equal.symm.trans same)]
      · rw [if_neg same, if_neg same]

theorem node?_put_self {place : Place} (some : place ≠ []) (fs : FileSystem) (node : Node) :
    (fs.put place node).node? place = .some node := by
  rw [node?, if_neg some, put, lookup_putNode, if_pos rfl]

theorem node?_put_of_ne {place other : Place} (differs : other ≠ place) (fs : FileSystem)
    (node : Node) : (fs.put place node).node? other = fs.node? other := by
  rw [node?, node?, put, lookup_putNode, if_neg differs]

/-- Nothing that is there goes away or changes its kind. -/
structure Grows (fs after : FileSystem) : Prop where
  current : after.current = fs.current
  dir : ∀ place, fs.node? place = some .dir → after.node? place = some .dir
  file : ∀ place content, fs.node? place = some (.file content) →
    ∃ now, after.node? place = some (.file now)

theorem Grows.refl (fs : FileSystem) : Grows fs fs :=
  ⟨rfl, fun _ dir => dir, fun _ content file => ⟨content, file⟩⟩

theorem Grows.trans {fs middle after : FileSystem} (first : Grows fs middle)
    (second : Grows middle after) : Grows fs after := by
  refine ⟨second.current.trans first.current, fun place dir => second.dir _ (first.dir _ dir), ?_⟩
  intro place content file
  obtain ⟨now, file⟩ := first.file place content file
  exact second.file place now file

theorem grows_put_of_none {fs : FileSystem} {place : Place} (absent : fs.node? place = none)
    (node : Node) : Grows fs (fs.put place node) := by
  have other {there : Place} {old : Node} (present : fs.node? there = some old) :
      (fs.put place node).node? there = some old := by
    rw [node?_put_of_ne ?_ fs node, present]
    rintro rfl
    rw [absent] at present
    cases present
  exact ⟨rfl, fun _ dir => other dir, fun _ content file => ⟨content, other file⟩⟩

theorem grows_put_of_file {fs : FileSystem} {place : Place} {old : Bytes}
    (present : fs.node? place = some (.file old)) (new : Bytes) :
    Grows fs (fs.put place (.file new)) := by
  have some : place ≠ [] := by
    rintro rfl
    cases present
  refine ⟨rfl, ?_, ?_⟩
  · intro there dir
    rw [node?_put_of_ne ?_ fs, dir]
    rintro rfl
    rw [present] at dir
    cases dir
  · intro there content file
    by_cases same : there = place
    · rw [same]
      exact ⟨new, node?_put_self some fs _⟩
    · rw [node?_put_of_ne same]
      exact ⟨content, file⟩

/-- A name that stands for something in a directory. -/
def IsName (name : String) : Prop :=
  Path.isIdle name = false ∧ name ≠ ".." ∧ name.utf8ByteSize ≤ maxName

/-- Where names lead from a place. -/
inductive Leads (fs : FileSystem) : Place → List String → Target → Prop
  | here (place : Place) : Leads fs place [] (.dir place)
  | idle {place : Place} {name : String} {rest : List String} {target : Target} :
      Path.isIdle name = true → Leads fs place rest target → Leads fs place (name :: rest) target
  | up {place : Place} {rest : List String} {target : Target} :
      Leads fs place.dropLast rest target → Leads fs place (".." :: rest) target
  | enter {place : Place} {name : String} {rest : List String} {target : Target} : IsName name →
      fs.node? (place ++ [name]) = some .dir → Leads fs (place ++ [name]) rest target →
      Leads fs place (name :: rest) target
  | file {place : Place} {name : String} {content : Bytes} : IsName name →
      fs.node? (place ++ [name]) = some (.file content) →
      Leads fs place [name] (.file (place ++ [name]) content)
  | missing {place : Place} {name : String} {rest : List String} : IsName name →
      fs.node? (place ++ [name]) = none → rest.all (·.isEmpty) = true →
      Leads fs place (name :: rest) (.missing (place ++ [name]) (rest ≠ []))

theorem leads_of_follow {fs : FileSystem} {place : Place} {names : List String} {target : Target}
    (followed : fs.follow place names = .ok target) : Leads fs place names target := by
  induction names generalizing place with
  | nil =>
    cases followed
    exact .here place
  | cons name rest ih =>
    rw [follow] at followed
    by_cases idle : Path.isIdle name = true
    · rw [if_pos idle] at followed
      exact .idle idle (ih followed)
    rw [if_neg idle] at followed
    by_cases up : name = ".."
    · rw [if_pos up] at followed
      rw [up]
      exact .up (ih followed)
    rw [if_neg up] at followed
    by_cases long : maxName < name.utf8ByteSize
    · rw [if_pos long] at followed
      cases followed
    rw [if_neg long] at followed
    have isName : IsName name := ⟨by simpa using idle, up, Nat.le_of_not_lt long⟩
    cases there : fs.node? (place ++ [name]) with
    | none =>
      simp only [there] at followed
      split_ifs at followed with empty
      cases followed
      exact .missing isName there empty
    | some node =>
      cases node with
      | dir =>
        simp only [there] at followed
        exact .enter isName there (ih followed)
      | file content =>
        simp only [there] at followed
        split_ifs at followed with last
        cases followed
        rw [last]
        exact .file isName there

theorem Leads.follow {fs : FileSystem} {place : Place} {names : List String} {target : Target}
    (leads : Leads fs place names target) : fs.follow place names = .ok target := by
  induction leads with
  | here => rfl
  | idle idle _ ih => rw [FileSystem.follow, if_pos idle, ih]
  | up _ ih => rw [FileSystem.follow, if_neg (by decide), if_pos rfl, ih]
  | enter isName dir _ ih =>
    obtain ⟨notIdle, notUp, short⟩ := isName
    rw [FileSystem.follow, if_neg (by simp [notIdle]), if_neg notUp, if_neg (Nat.not_lt.mpr short)]
    simp only [dir, ih]
  | file isName file =>
    obtain ⟨notIdle, notUp, short⟩ := isName
    rw [FileSystem.follow, if_neg (by simp [notIdle]), if_neg notUp, if_neg (Nat.not_lt.mpr short)]
    simp only [file, if_true]
  | missing isName absent empty =>
    obtain ⟨notIdle, notUp, short⟩ := isName
    rw [FileSystem.follow, if_neg (by simp [notIdle]), if_neg notUp, if_neg (Nat.not_lt.mpr short)]
    simp only [absent, empty, if_true]

namespace Target

def place : Target → Place
  | dir place => place
  | file place _ => place
  | missing place _ => place

def isThere : Target → Bool
  | missing _ _ => false
  | _ => true

/-- A file can be written there. -/
def isWritable : Target → Bool
  | dir _ => false
  | file _ _ => true
  | missing _ slash => !slash

end Target

theorem Leads.node {fs : FileSystem} {start : Place} {names : List String} {target : Target}
    (leads : Leads fs start names target) :
    (∀ place content, target = .file place content → fs.node? place = some (.file content)) ∧
      ∀ place slash, target = .missing place slash → fs.node? place = none ∧ place ≠ [] := by
  induction leads with
  | here => exact ⟨fun _ _ absurdity => (nomatch absurdity), fun _ _ absurdity => (nomatch absurdity)⟩
  | idle _ _ ih => exact ih
  | up _ ih => exact ih
  | enter _ _ _ ih => exact ih
  | file _ there =>
    refine ⟨?_, fun _ _ absurdity => (nomatch absurdity)⟩
    rintro _ _ ⟨⟩
    exact there
  | missing _ absent _ =>
    refine ⟨fun _ _ absurdity => (nomatch absurdity), ?_⟩
    rintro _ _ ⟨⟩
    exact ⟨absent, List.append_ne_nil_of_right_ne_nil _ (List.cons_ne_nil _ _)⟩

theorem Leads.not_dir_of_isWritable {fs : FileSystem} {start : Place} {names : List String}
    {target : Target} (leads : Leads fs start names target) (writable : target.isWritable = true) :
    fs.node? target.place ≠ some .dir := by
  cases target with
  | dir => cases writable
  | file place content =>
    rw [Target.place, leads.node.1 place content rfl]
    exact fun absurdity => (nomatch absurdity)
  | missing place slash =>
    rw [Target.place, (leads.node.2 place slash rfl).1]
    exact fun absurdity => (nomatch absurdity)

/-- What exists goes on existing. -/
theorem Grows.leads {fs after : FileSystem} (grows : Grows fs after) {start : Place}
    {names : List String} {target : Target} (leads : Leads fs start names target)
    (there : target.isThere = true) :
    ∃ now, Leads after start names now ∧ now.isThere = true := by
  induction leads with
  | here place => exact ⟨_, .here place, rfl⟩
  | idle idle _ ih =>
    obtain ⟨now, leads, there⟩ := ih there
    exact ⟨now, .idle idle leads, there⟩
  | up _ ih =>
    obtain ⟨now, leads, there⟩ := ih there
    exact ⟨now, .up leads, there⟩
  | enter isName dir _ ih =>
    obtain ⟨now, leads, there⟩ := ih there
    exact ⟨now, .enter isName (grows.dir _ dir) leads, there⟩
  | file isName file =>
    obtain ⟨now, file⟩ := grows.file _ _ file
    exact ⟨_, .file isName file, rfl⟩
  | missing => cases there

/-- Once a file is put where names lead, they lead to it. -/
theorem Leads.put {fs : FileSystem} {start : Place} {names : List String} {target : Target}
    (leads : Leads fs start names target) (writable : target.isWritable = true) (new : Bytes) :
    Leads (fs.put target.place (.file new)) start names (.file target.place new) := by
  have notDir := leads.not_dir_of_isWritable writable
  induction leads with
  | here => cases writable
  | idle idle _ ih => exact .idle idle (ih writable notDir)
  | up _ ih => exact .up (ih writable notDir)
  | @enter place name rest target isName dir _ ih =>
    refine .enter isName ?_ (ih writable notDir)
    rw [node?_put_of_ne ?_ fs, dir]
    intro same
    rw [← same] at notDir
    exact notDir dir
  | file isName _ =>
    exact .file isName (node?_put_self (List.append_ne_nil_of_right_ne_nil _ (List.cons_ne_nil _ _)) fs _)
  | missing isName _ _ =>
    have last := of_decide_eq_false ((Bool.not_eq_true' _).mp writable)
    rw [ne_eq, not_not] at last
    subst last
    exact .file isName (node?_put_self (List.append_ne_nil_of_right_ne_nil _ (List.cons_ne_nil _ _)) fs _)

/-- A text that the system takes for a path. -/
def IsPath (path : String) : Prop :=
  path.toList.contains '\x00' = false ∧ path.isEmpty = false ∧ path.utf8ByteSize < maxPath

/-- Where a path starts. -/
def origin (fs : FileSystem) (path : String) : Place :=
  if Path.isAbsolute path then [] else fs.current

theorem locate_ok_iff {fs : FileSystem} {path : String} {target : Target} :
    fs.locate path = .ok target ↔
      IsPath path ∧ Leads fs (fs.origin path) (Path.pieces path) target := by
  have start : (if Path.isAbsolute path then [] else fs.current) = fs.origin path := rfl
  rw [locate, IsPath, start]
  constructor
  · intro located
    split_ifs at located with nul empty long
    rw [Bool.not_eq_true] at nul empty
    exact ⟨⟨nul, empty, Nat.lt_of_not_le long⟩, leads_of_follow located⟩
  · rintro ⟨⟨nul, some, short⟩, leads⟩
    rw [← Bool.not_eq_true] at nul some
    rw [if_neg nul, if_neg some, if_neg (Nat.not_le.mpr short)]
    exact leads.follow

theorem pathExists_iff {fs : FileSystem} {path : String} :
    fs.pathExists path = true ↔ ∃ target, fs.locate path = .ok target ∧ target.isThere = true := by
  rw [pathExists]
  cases fs.locate path with
  | error => simp
  | ok target => cases target <;> simp [Target.isThere]

theorem Grows.pathExists {fs after : FileSystem} (grows : Grows fs after) {path : String}
    (present : fs.pathExists path = true) : after.pathExists path = true := by
  obtain ⟨target, located, there⟩ := pathExists_iff.mp present
  obtain ⟨isPath, leads⟩ := locate_ok_iff.mp located
  obtain ⟨now, leads, there⟩ := grows.leads leads there
  have origin : after.origin path = fs.origin path := by rw [origin, FileSystem.origin, grows.current]
  exact pathExists_iff.mpr ⟨now, locate_ok_iff.mpr ⟨isPath, origin ▸ leads⟩, there⟩

theorem follow_asked (fs : FileSystem) (place : Place) (names : List String) :
    fs.asked.follow place names = fs.follow place names := by
  induction names generalizing place with
  | nil => rfl
  | cons name rest ih => simp only [follow, ih, show fs.asked.node? = fs.node? from rfl]

theorem locate_asked (fs : FileSystem) (path : String) : fs.asked.locate path = fs.locate path := by
  rw [locate, locate, follow_asked, show fs.asked.current = fs.current from rfl]

theorem grows_asked (fs : FileSystem) : Grows fs fs.asked :=
  ⟨rfl, fun _ dir => dir, fun _ content file => ⟨content, file⟩⟩

/-- The device never fails in the midst of a file. -/
def Reliable (fs : FileSystem) : Prop :=
  ∀ error kept, some ⟨error, some kept⟩ ∉ fs.faults

/-- What is left of bytes that are written: all of them, or those that have arrived when the device
fails. -/
inductive Arrives (fs : FileSystem) (bytes : Bytes) : Option Fault → Bytes → Prop
  | whole : Arrives fs bytes none bytes
  | part {error : IoError} {kept : Nat} : some ⟨error, some kept⟩ ∈ fs.faults →
      Arrives fs bytes (some ⟨error, some kept⟩) (bytes.take kept)

/-- How writing a file comes to its end. -/
inductive Wrote (fs : FileSystem) (path : String) (bytes : Bytes) :
    Except Fault Unit → FileSystem → Prop
  | nowhere (error : IoError) : Wrote fs path bytes (.error { error }) fs
  | refused (error : IoError) : Wrote fs path bytes (.error { error }) fs.asked
  | broken {target : Target} {error : IoError} {kept : Nat} :
      some ⟨error, some kept⟩ ∈ fs.faults → fs.locate path = .ok target →
      target.isWritable = true →
      Wrote fs path bytes (.error { error, kept := some kept })
        (fs.asked.put target.place (.file (bytes.take kept)))
  | whole {target : Target} : fs.locate path = .ok target → target.isWritable = true →
      Wrote fs path bytes (.ok ()) (fs.asked.put target.place (.file bytes))

theorem writeTarget_ok {fs : FileSystem} {path : String} {place : Place} {old : Bytes}
    (found : fs.writeTarget path = .ok (place, old)) :
    ∃ target, fs.locate path = .ok target ∧ target.isWritable = true ∧ target.place = place := by
  rw [writeTarget] at found
  cases located : fs.locate path with
  | error => simp [located] at found
  | ok target =>
    refine ⟨target, rfl, ?_⟩
    rw [located] at found
    cases target with
    | dir => cases found
    | file =>
      cases found
      exact ⟨rfl, rfl⟩
    | missing place slash =>
      cases slash with
      | true => cases found
      | false =>
        cases found
        exact ⟨rfl, rfl⟩

theorem wrote_write {fs after : FileSystem} {path : String} {bytes : Bytes}
    {result : Except Fault Unit} (wrote : fs.write path bytes = (result, after)) :
    Wrote fs path bytes result after := by
  rw [write] at wrote
  cases found : fs.writeTarget path with
  | error error =>
    rw [found] at wrote
    cases wrote
    exact .nowhere error
  | ok there =>
    obtain ⟨place, old⟩ := there
    obtain ⟨target, located, writable, rfl⟩ := writeTarget_ok found
    simp only [found, transfer, List.nil_append] at wrote
    cases fails : fs.fault? with
    | none =>
      rw [fails] at wrote
      cases wrote
      exact .whole located writable
    | some fault =>
      obtain ⟨error, kept⟩ := fault
      rw [fails] at wrote
      cases kept with
      | none =>
        cases wrote
        exact .refused error
      | some kept =>
        cases wrote
        have head := Option.join_eq_some_iff.mp fails
        exact .broken (List.mem_of_mem_head? head) located writable

theorem write_ok {fs after : FileSystem} {path : String} {bytes : Bytes}
    (wrote : fs.write path bytes = (.ok (), after)) :
    ∃ target, fs.locate path = .ok target ∧ target.isWritable = true ∧
      after = fs.asked.put target.place (.file bytes) := by
  cases wrote_write wrote with
  | whole located writable => exact ⟨_, located, writable, rfl⟩

/-- What is written is there, and can be read. -/
theorem locate_of_write {fs after : FileSystem} {path : String} {bytes : Bytes}
    (wrote : fs.write path bytes = (.ok (), after)) :
    ∃ place, after.locate path = .ok (.file place bytes) := by
  obtain ⟨target, located, writable, rfl⟩ := write_ok wrote
  obtain ⟨isPath, leads⟩ := locate_ok_iff.mp (located ▸ locate_asked fs path)
  exact ⟨target.place, locate_ok_iff.mpr ⟨isPath, leads.put writable bytes⟩⟩

theorem Target.grows_put {fs : FileSystem} {path : String} {target : Target}
    (located : fs.locate path = .ok target) (writable : target.isWritable = true) (bytes : Bytes) :
    Grows fs (fs.asked.put target.place (.file bytes)) := by
  obtain ⟨_, leads⟩ := locate_ok_iff.mp located
  refine fs.grows_asked.trans ?_
  cases target with
  | dir => cases writable
  | file place content =>
    have there : fs.asked.node? place = _ := leads.node.1 place content rfl
    exact grows_put_of_file there bytes
  | missing place slash =>
    have free : fs.asked.node? place = none := (leads.node.2 place slash rfl).1
    exact grows_put_of_none free _

theorem Wrote.grows {fs after : FileSystem} {path : String} {bytes : Bytes}
    {result : Except Fault Unit} (wrote : Wrote fs path bytes result after) : Grows fs after := by
  cases wrote with
  | nowhere => exact .refl fs
  | refused => exact fs.grows_asked
  | broken _ located writable => exact Target.grows_put located writable _
  | whole located writable => exact Target.grows_put located writable _

/-- What each directory that is created preserves is preserved by creating a list of them. -/
theorem makeDirs_induction {motive : FileSystem → Prop} {fs : FileSystem} {paths : List String}
    (start : motive fs) (asked : ∀ before, motive before → motive before.asked)
    (made : ∀ before path place slash, path ∈ paths → motive before →
      before.locate path = .ok (.missing place slash) → motive (before.asked.put place .dir)) :
    motive (fs.makeDirs paths).2 := by
  induction paths generalizing fs with
  | nil => exact start
  | cons path outer ih =>
    have here {before after : FileSystem} {result : Except IoError Unit} (holds : motive before)
        (done : before.makeDir path = (result, after)) : motive after := by
      rw [makeDir] at done
      split at done
      · cases done
        exact holds
      · split at done <;> cases done
        · exact made _ _ _ _ List.mem_cons_self holds ‹_›
        · exact asked _ holds
      · cases done
        exact holds
    rw [makeDirs]
    simp only
    split
    · exact here start ‹_›
    · have above := ih (here start ‹_›) fun before path place slash member =>
        made before path place slash (List.mem_cons_of_mem _ member)
      split
      · rename_i outside
        rw [outside] at above
        exact above
      · rename_i outside
        rw [outside] at above
        split
        · exact here above ‹_›
        · exact here above ‹_›
    · exact here start ‹_›

theorem grows_put_missing {fs : FileSystem} {path : String} {place : Place} {slash : Bool}
    (missing : fs.locate path = .ok (.missing place slash)) :
    Grows fs (fs.asked.put place .dir) := by
  obtain ⟨_, leads⟩ := locate_ok_iff.mp missing
  have free : fs.asked.node? place = none := (leads.node.2 place slash rfl).1
  exact fs.grows_asked.trans (grows_put_of_none free _)

/-- Directories that were created before a failure stay, and nothing else changes. -/
theorem grows_makeDirs (fs : FileSystem) (paths : List String) : Grows fs (fs.makeDirs paths).2 :=
  makeDirs_induction (.refl fs) (fun before grows => grows.trans before.grows_asked)
    fun _ _ _ _ _ grows missing => grows.trans (grows_put_missing missing)

theorem grows_createDirAll (fs : FileSystem) (path : String) : Grows fs (fs.createDirAll path).2 :=
  grows_makeDirs fs _

end BatchFetch.FileSystem
