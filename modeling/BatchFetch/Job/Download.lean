import BatchFetch.Files.System
import BatchFetch.Job.Outcome
import BatchFetch.Job.Settings
import BatchFetch.Job.Site
import BatchFetch.Job.Trail

namespace BatchFetch.Download

/-- What the job has done so far. -/
structure State where
  files : FileSystem
  /-- The number of files skipped since the last one that was not. -/
  skips : Nat := 0
  trail : Trail := {}
  deriving Inhabited

/-- Store the bytes of a file, creating the directories above it. -/
def store (state : State) (path : String) (bytes : Bytes) : State :=
  let parent := (Path.parent? path).getD ""
  match state.files.createDirAll parent with
  | (.error e, files) =>
    let trail := state.trail.fail .general s!"Failed to create {parent}: {e.message}"
    { state with files, trail }
  | (.ok _, files) =>
    match files.write path bytes with
    | (.error fault, files) =>
      let trail := state.trail.fail .general s!"Failed to write {path}: {fault.error.message}"
      { state with files, trail }
    | (.ok _, files) => { state with files, trail := state.trail.note (.info path) }

/-- Pass over a file that is there. The answer tells whether the target is to be aborted. -/
def skip (settings : DownloadSettings) (root : Url) (path : String) (state : State) :
    Bool × State :=
  let skips := state.skips + 1
  let trail := state.trail.note (.info s!"Skipping {path} (exists)")
  match settings.skip with
  | .abort limit =>
    if limit ≤ skips then
      let trail := trail.note (.info s!"Aborting {root.text} after {skips} skipped files")
      (true, { state with skips, trail })
    else (false, { state with skips, trail })
  | _ => (false, { state with skips, trail })

/-- Handle a file: skip it, or fetch and store it. The answer tells whether the target is to be
aborted. -/
def file (site : Site) (settings : DownloadSettings) (root url : Url) (state : State) :
    Bool × State :=
  let path := settings.destination url
  if state.files.pathExists path && settings.skip ≠ .disabled then skip settings root path state
  else
    let fetched := site.fetch url
    let state := { state with skips := 0, trail := state.trail.asked fetched.requests }
    match fetched.result with
    | .error e => (false, { state with trail := state.trail.fail e.exitStatus e.message })
    | .ok bytes => (false, store state path bytes)

/-- The handling of the entries of one target: the targets seen so far, those newly found that are
to be visited, and whether the target is to be aborted. -/
structure Pass where
  seen : List Url
  found : List Url := []
  state : State
  aborted : Bool := false

/-- Handle one entry. A target that is new is either queued or, when nothing claims it, reported. -/
def Pass.entry (site : Site) (settings : DownloadSettings) (root : Url) (pass : Pass)
    (entry : Entry) : Pass :=
  if pass.aborted then pass
  else
    match entry with
    | .file url =>
      let (aborted, state) := file site settings root url pass.state
      { pass with state, aborted }
    | .queue child =>
      if child ∈ pass.seen then pass
      else if site.claims child then
        { pass with seen := child :: pass.seen, found := pass.found ++ [child] }
      else
        { pass with
          seen := child :: pass.seen
          state := { pass.state with trail := pass.state.trail.unclaimed child } }

def Pass.run (site : Site) (settings : DownloadSettings) (root : Url) (pass : Pass)
    (entries : List Entry) : Pass :=
  entries.foldl (Pass.entry site settings root) pass

theorem Pass.entry_grows {site : Site} {settings : DownloadSettings} {root : Url} {pass : Pass}
    {entry : Entry} {url : Url} (member : url ∈ pass.seen) :
    url ∈ (pass.entry site settings root entry).seen := by
  unfold Pass.entry
  split
  · exact member
  · split
    · exact member
    · split
      · exact member
      · split <;> exact List.mem_cons_of_mem _ member

theorem Pass.run_grows {site : Site} {settings : DownloadSettings} {root : Url} {pass : Pass}
    {entries : List Entry} {url : Url} (member : url ∈ pass.seen) :
    url ∈ (pass.run site settings root entries).seen := by
  induction entries generalizing pass with
  | nil => exact member
  | cons entry rest ih => exact ih (Pass.entry_grows member)

/-- What is found is a target among the entries, was not seen before, and is seen now. -/
theorem Pass.run_found {site : Site} {settings : DownloadSettings} {root : Url} {pass : Pass}
    {entries : List Entry} {url : Url}
    (member : url ∈ (pass.run site settings root entries).found) :
    url ∈ pass.found ∨ (url ∈ Site.targets entries ∧ url ∉ pass.seen ∧
      url ∈ (pass.run site settings root entries).seen) := by
  induction entries generalizing pass with
  | nil => exact Or.inl member
  | cons entry rest ih =>
    have step : (pass.run site settings root (entry :: rest)) =
        (pass.entry site settings root entry).run site settings root rest := rfl
    rw [step] at member ⊢
    rcases ih member with old | ⟨target, unseen, seen⟩
    · unfold Pass.entry at old
      split at old
      · exact Or.inl old
      · split at old
        · exact Or.inl old
        · rename_i child
          split at old
          · exact Or.inl old
          · rename_i fresh
            split at old
            · rename_i claimed
              rcases List.mem_append.1 old with before | same
              · exact Or.inl before
              · obtain rfl := List.mem_singleton.1 same
                refine Or.inr ⟨by simp [Site.targets], fresh, Pass.run_grows ?_⟩
                simp [Pass.entry, *]
            · exact Or.inl old
    · refine Or.inr ⟨?_, fun earlier => unseen (Pass.entry_grows earlier), seen⟩
      unfold Site.targets at target ⊢
      rw [List.filterMap_cons]
      split
      · exact target
      · exact List.mem_cons_of_mem _ target

/-- The members of a bound that were not seen yet. -/
def unseen (bound seen : List Url) : List Url :=
  bound.filter (· ∉ seen)

theorem unseen_cons (head : Url) (rest seen : List Url) :
    unseen (head :: rest) seen =
      if head ∉ seen then head :: unseen rest seen else unseen rest seen := by
  simp [unseen, List.filter_cons]

theorem unseen_length_le {bound before after : List Url} (grows : ∀ url ∈ before, url ∈ after) :
    (unseen bound after).length ≤ (unseen bound before).length := by
  induction bound with
  | nil => exact Nat.le_refl _
  | cons head rest ih =>
    rw [unseen_cons, unseen_cons]
    by_cases old : head ∈ before
    · simp [old, grows head old, ih]
    · by_cases new : head ∈ after
      · simp only [old, new, not_true_eq_false, not_false_eq_true, if_true, if_false,
          List.length_cons]
        exact Nat.le_succ_of_le ih
      · simp only [old, new, not_false_eq_true, if_true, List.length_cons]
        exact Nat.succ_le_succ ih

theorem unseen_length_lt {bound before after : List Url} {url : Url} (member : url ∈ bound)
    (grows : ∀ url ∈ before, url ∈ after) (fresh : url ∉ before) (seen : url ∈ after) :
    (unseen bound after).length < (unseen bound before).length := by
  induction bound with
  | nil => cases member
  | cons head rest ih =>
    rw [unseen_cons, unseen_cons]
    rcases List.mem_cons.1 member with same | later
    · subst same
      simp only [fresh, seen, not_true_eq_false, not_false_eq_true, if_true, if_false,
        List.length_cons]
      exact Nat.lt_succ_of_le (unseen_length_le grows)
    · have less := ih later
      by_cases old : head ∈ before
      · simp [old, grows head old, less]
      · by_cases new : head ∈ after
        · simp only [old, new, not_true_eq_false, not_false_eq_true, if_true, if_false,
            List.length_cons]
          exact Nat.lt_succ_of_lt less
        · simp only [old, new, not_false_eq_true, if_true, List.length_cons]
          exact Nat.succ_lt_succ less

section

variable (site : Site) (settings : DownloadSettings) (root : Url)

/-- Visit the targets of a queue. The answer tells whether the target is aborted; there is none if
more and more targets are found, so that the queue never becomes empty. -/
def visit (seen queue : List Url) (state : State) : Option (Bool × State) :=
  match queue with
  | [] => some (false, state)
  | url :: rest =>
    let resolution := site.expand url
    let state := { state with trail := state.trail.resolved url resolution }
    let pass := Pass.run site settings root { seen, state } resolution.entries
    if pass.aborted then some (true, pass.state)
    else by
      -- A call in plain terms would keep its position in the file as a part of the definition.
      apply visit
      · exact pass.seen
      · exact rest ++ pass.found
      · exact pass.state
  partial_fixpoint

end

/-- What the entries of a target add to the queue stays within a closed bound. -/
theorem Pass.within {site : Site} {settings : DownloadSettings} {root url : Url}
    {bound rest seen : List Url} {state : State}
    (closed : ∀ url ∈ bound, ∀ child ∈ site.children url, child ∈ bound)
    (inside : ∀ other ∈ url :: rest, other ∈ bound) :
    ∀ other ∈ rest ++ (Pass.run site settings root { seen, state } (site.entries url)).found,
      other ∈ bound := by
  intro other member
  rcases List.mem_append.1 member with waiting | found
  · exact inside other (List.mem_cons_of_mem _ waiting)
  · rcases Pass.run_found found with absent | ⟨child, _⟩
    · cases absent
    · exact closed url (inside url List.mem_cons_self) other child

/-- A turn either makes targets of the bound known that were not, or takes a target from the queue
without putting others there. -/
theorem Pass.progress {site : Site} {settings : DownloadSettings} {root url : Url}
    {bound rest seen : List Url} {state : State}
    (closed : ∀ url ∈ bound, ∀ child ∈ site.children url, child ∈ bound)
    (inside : ∀ other ∈ url :: rest, other ∈ bound) :
    let pass := Pass.run site settings root { seen, state } (site.entries url)
    Prod.Lex (· < ·) (· < ·) ((unseen bound pass.seen).length, (rest ++ pass.found).length)
      ((unseen bound seen).length, (url :: rest).length) := by
  intro pass
  have grows : ∀ other ∈ seen, other ∈ pass.seen := fun other member => Pass.run_grows member
  cases same : pass.found with
  | nil =>
    have least : (unseen bound pass.seen).length ≤ (unseen bound seen).length :=
      unseen_length_le grows
    rcases Nat.lt_or_eq_of_le least with less | equal
    · exact .left _ _ less
    · rw [equal]
      exact .right _ (by simp)
  | cons child more =>
    have found : child ∈ pass.found := same ▸ List.mem_cons_self
    have member : child ∈ bound := Pass.within closed inside child (List.mem_append_right _ found)
    rcases Pass.run_found found with absent | ⟨_, fresh, now⟩
    · cases absent
    · exact .left _ _ (unseen_length_lt member grows fresh now)

/-- A queue within a closed bound becomes empty at last. -/
theorem visit_isSome {site : Site} (settings : DownloadSettings) {root : Url} {bound : List Url}
    (closed : ∀ url ∈ bound, ∀ child ∈ site.children url, child ∈ bound) (seen queue : List Url)
    (state : State) (inside : ∀ url ∈ queue, url ∈ bound) :
    (visit site settings root seen queue state).isSome := by
  match queue with
  | [] =>
    rw [visit]
    rfl
  | url :: rest =>
    rw [visit]
    split
    · rfl
    · exact visit_isSome settings closed _ _ _ (Pass.within closed inside)
  termination_by ((unseen bound seen).length, queue.length)
  decreasing_by exact Pass.progress closed inside

/-- How a download ends, and what it leaves behind. -/
structure Report where
  outcome : JobOutcome
  state : State
  deriving Inhabited

/-- The report of a download whose queue is empty, or that was aborted. -/
def Report.of (aborted : Bool) (state : State) : Report :=
  let failure : Except JobFailure ExitStatus :=
    if aborted then .error .aborted else .ok state.trail.status
  ⟨.ofResult failure, state⟩

/-- Download a target; there is no report if that goes on for ever. -/
def run? (site : Site) (settings : DownloadSettings) (root : Url) (files : FileSystem) :
    Option Report :=
  (visit site settings root [root] [root] { files }).map fun (aborted, state) => .of aborted state

theorem run?_isSome {site : Site} (settings : DownloadSettings) {root : Url}
    (finite : site.FinitelyReaches root) (files : FileSystem) :
    (run? site settings root files).isSome := by
  obtain ⟨bound, inside, closed⟩ := finite
  rw [run?, Option.isSome_map]
  refine visit_isSome settings closed [root] [root] { files } fun url member => ?_
  rw [List.mem_singleton.1 member]
  exact inside

/-- Download a target that leads to finitely many others. -/
def run (site : Site) (settings : DownloadSettings) (root : Url)
    (finite : site.FinitelyReaches root) (files : FileSystem) : Report :=
  (run? site settings root files).get (run?_isSome settings finite files)

end BatchFetch.Download
