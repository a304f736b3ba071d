import BatchFetch.Job.Listing
import BatchFetch.Proofs.Job.Answers

namespace BatchFetch

namespace OutStream

/-- Write pieces up to the first that is refused, and tell why it is, if there is one. -/
def writePieces (stream : OutStream) : List String → Option IoError × OutStream
  | [] => (none, stream)
  | piece :: rest =>
    match stream.write piece with
    | (.ok _, stream) => stream.writePieces rest
    | (.error error, stream) => (some error, stream)

theorem writePieces_append {stream after : OutStream} {first : List String}
    (written : stream.writePieces first = (none, after)) (second : List String) :
    stream.writePieces (first ++ second) = after.writePieces second := by
  induction first generalizing stream with
  | nil =>
    cases written
    rfl
  | cons piece rest ih =>
    simp only [List.cons_append, writePieces] at written ⊢
    rcases answer : stream.write piece with ⟨error | _, between⟩
    · simp only [answer] at written
      cases written
    · simp only [answer] at written ⊢
      exact ih written

theorem writePieces_append_of_refused {stream after : OutStream} {first : List String}
    {error : IoError} (refused : stream.writePieces first = (some error, after))
    (second : List String) : stream.writePieces (first ++ second) = (some error, after) := by
  induction first generalizing stream with
  | nil => cases refused
  | cons piece rest ih =>
    simp only [List.cons_append, writePieces] at refused ⊢
    rcases answer : stream.write piece with ⟨other | _, between⟩
    · simp only [answer] at refused ⊢
      exact refused
    · simp only [answer] at refused ⊢
      exact ih refused

theorem writePieces_of_accepted {stream : OutStream} {pieces : List String}
    (accepts : ∀ j < pieces.length, stream.refuses (stream.attempts + j) = none) :
    stream.writePieces pieces =
      (none, { stream with
        attempts := stream.attempts + pieces.length
        pieces := stream.pieces ++ pieces }) := by
  induction pieces generalizing stream with
  | nil => simp only [writePieces, List.length_nil, Nat.add_zero, List.append_nil]
  | cons piece rest ih =>
    have first : stream.refuses stream.attempts = none := accepts 0 (Nat.succ_pos _)
    simp only [writePieces, write, first]
    rw [ih]
    · simp only [List.append_assoc, List.singleton_append, List.length_cons, Nat.add_assoc,
        Nat.add_comm 1]
    · intro j less
      have later := accepts (j + 1) (Nat.succ_lt_succ less)
      rwa [Nat.add_comm j 1, ← Nat.add_assoc] at later

theorem writePieces_of_refused {stream : OutStream} {pieces : List String} {k : Nat}
    {error : IoError} (inside : k < pieces.length)
    (accepts : ∀ j < k, stream.refuses (stream.attempts + j) = none)
    (refuses : stream.refuses (stream.attempts + k) = some error) :
    stream.writePieces pieces =
      (some error, { stream with
        attempts := stream.attempts + k + 1
        pieces := stream.pieces ++ pieces.take k }) := by
  obtain ⟨piece, rest, cut⟩ : ∃ piece rest, pieces = pieces.take k ++ piece :: rest := by
    refine ⟨pieces[k], pieces.drop (k + 1), ?_⟩
    rw [List.getElem_cons_drop, List.take_append_drop]
  have length : (pieces.take k).length = k := List.length_take_of_le (Nat.le_of_lt inside)
  have before : stream.writePieces (pieces.take k) = _ := writePieces_of_accepted (by rwa [length])
  rw [length] at before
  conv => lhs; rw [cut]
  rw [writePieces_append before]
  simp only [writePieces, write, refuses]

/-- Write lines up to the first that is refused. -/
def writeLines (stream : OutStream) (lines : List String) : Option IoError × OutStream :=
  stream.writePieces (lines.flatMap piecesOf)

theorem writeLines_append {stream after : OutStream} {first : List String}
    (written : stream.writeLines first = (none, after)) (second : List String) :
    stream.writeLines (first ++ second) = after.writeLines second := by
  rw [writeLines, List.flatMap_append]
  exact writePieces_append written _

theorem writeLines_append_of_refused {stream after : OutStream} {first : List String}
    {error : IoError} (refused : stream.writeLines first = (some error, after))
    (second : List String) : stream.writeLines (first ++ second) = (some error, after) := by
  rw [writeLines, List.flatMap_append]
  exact writePieces_append_of_refused refused _

theorem writePieces_piecesOf (stream : OutStream) (line : String) :
    stream.writePieces (piecesOf line) =
      match stream.writeLine line with
      | (.ok _, after) => (none, after)
      | (.error error, after) => (some error, after) := by
  simp only [piecesOf, writePieces, writeLine]
  rcases stream.write line with ⟨error | _, between⟩
  · rfl
  · rcases between.write "\n" with ⟨error | _, after⟩ <;> rfl

theorem writeLines_cons_of_accepted {stream after : OutStream} {line : String}
    (accepts : stream.writeLine line = (.ok (), after)) (rest : List String) :
    stream.writeLines (line :: rest) = after.writeLines rest := by
  have first := stream.writePieces_piecesOf line
  rw [accepts] at first
  exact writePieces_append first _

theorem writeLines_cons_of_refused {stream after : OutStream} {line : String} {error : IoError}
    (refuses : stream.writeLine line = (.error error, after)) (rest : List String) :
    stream.writeLines (line :: rest) = (some error, after) := by
  have first := stream.writePieces_piecesOf line
  rw [refuses] at first
  exact writePieces_append_of_refused first _

end OutStream

/-- The URL that an entry names, a file or a target. -/
def Entry.url : Entry → Url
  | file url | queue url => url

namespace Site

/-- The claimed targets that a URL leads to. -/
def next (site : Site) (url : Url) : List Url :=
  (site.children url).filter site.claims

/-- The targets so many levels below some others, in order and with repetitions. -/
def level (site : Site) (targets : List Url) : Nat → List Url
  | 0 => targets
  | below + 1 => (site.level targets below).flatMap site.next

theorem level_next (site : Site) (targets : List Url) (below : Nat) :
    site.level (targets.flatMap site.next) below = site.level targets (below + 1) := by
  induction below with
  | zero => rfl
  | succ below ih =>
    show (site.level (targets.flatMap site.next) below).flatMap site.next =
      (site.level targets (below + 1)).flatMap site.next
    rw [ih]

end Site

namespace Listing

/-- Why a listing cannot go on when a line is refused. -/
def refusal (error : IoError) : ErrorChain :=
  ErrorChain.inContext "failed to write URL" [.io error]

/-- The URLs that are written for entries. -/
def written (deepest : Bool) (entries : List Entry) : List Url :=
  if deepest then entries.map Entry.url else entries.filterMap Entry.file?

/-- The targets of entries that are visited in turn. -/
def visited (site : Site) (deepest : Bool) (entries : List Entry) : List Url :=
  if deepest then [] else (Site.targets entries).filter site.claims

/-- The targets of entries that are reported. -/
def reported (site : Site) (deepest : Bool) (entries : List Entry) : List Url :=
  if deepest then [] else (Site.targets entries).filter fun child => !site.claims child

theorem mem_reported {site : Site} {deepest : Bool} {url child : Url} :
    child ∈ reported site deepest (site.entries url) ↔
      deepest = false ∧ child ∈ site.children url ∧ site.claims child = false := by
  cases deepest with
  | true => exact iff_of_false List.not_mem_nil fun both => absurd both.1 (by decide)
  | false =>
    rw [and_iff_right rfl]
    exact List.mem_filter.trans (and_congr_right fun _ => iff_of_eq (Bool.not_eq_true' _))

/-- What becomes of the first of some entries. -/
inductive Fate (site : Site) (deepest : Bool) (entry : Entry) (rest : List Entry) : Prop
  | write (url : Url) : (∀ pass : Pass, pass.failure = none →
        pass.entry site deepest entry = pass.emit url) →
      written deepest (entry :: rest) = url :: written deepest rest →
      visited site deepest (entry :: rest) = visited site deepest rest →
      reported site deepest (entry :: rest) = reported site deepest rest → Fate site deepest entry rest
  | visit (url : Url) : (∀ pass : Pass, pass.failure = none →
        pass.entry site deepest entry = { pass with found := pass.found ++ [url] }) →
      written deepest (entry :: rest) = written deepest rest →
      visited site deepest (entry :: rest) = url :: visited site deepest rest →
      reported site deepest (entry :: rest) = reported site deepest rest → Fate site deepest entry rest
  | report (url : Url) : (∀ pass : Pass, pass.failure = none → pass.entry site deepest entry =
        { pass with state := { pass.state with trail := pass.state.trail.unclaimed url } }) →
      written deepest (entry :: rest) = written deepest rest →
      visited site deepest (entry :: rest) = visited site deepest rest →
      reported site deepest (entry :: rest) = url :: reported site deepest rest →
      Fate site deepest entry rest

theorem fate (site : Site) (deepest : Bool) (entry : Entry) (rest : List Entry) :
    Fate site deepest entry rest := by
  cases entry with
  | file url =>
    refine .write url ?_ ?_ ?_ ?_
    · intro pass going
      simp [Pass.entry, going]
    · cases deepest <;> rfl
    · cases deepest <;> rfl
    · cases deepest <;> rfl
  | queue child =>
    cases deepest with
    | true =>
      refine .write child ?_ rfl rfl rfl
      intro pass going
      simp [Pass.entry, going]
    | false =>
      by_cases claimed : site.claims child
      · refine .visit child ?_ rfl ?_ ?_
        · intro pass going
          simp [Pass.entry, going, claimed]
        · simp [visited, Site.targets, claimed]
        · simp [reported, Site.targets, claimed]
      · refine .report child ?_ rfl ?_ ?_
        · intro pass going
          simp [Pass.entry, going, claimed]
        · simp [visited, Site.targets, claimed]
        · simp [reported, Site.targets, claimed]

namespace Pass

variable {site : Site} {deepest : Bool} {pass : Pass}

theorem run_of_failed (failed : pass.failure ≠ none) (entries : List Entry) :
    pass.run site deepest entries = pass := by
  induction entries with
  | nil => rfl
  | cons entry rest ih =>
    have kept : pass.entry site deepest entry = pass := by
      unfold Pass.entry
      rw [if_pos (Option.isSome_iff_ne_none.mpr failed)]
    show (pass.entry site deepest entry).run site deepest rest = pass
    rw [kept, ih]

theorem emit_of_accepted {url : Url} {out : OutStream}
    (accepts : pass.state.out.writeLine url.text = (.ok (), out)) :
    pass.emit url = { pass with state.out := out } := by
  simp only [emit, accepts]

theorem emit_of_refused {url : Url} {error : IoError} {out : OutStream}
    (refuses : pass.state.out.writeLine url.text = (.error error, out)) :
    pass.emit url = { pass with state.out := out, failure := some (refusal error) } := by
  simp only [emit, refuses, refusal]

theorem eq_of_going (going : pass.failure = none) :
    pass = { found := pass.found, state := pass.state } := by
  rw [← going]

theorem run_of_written {entries : List Entry} {out : OutStream} (going : pass.failure = none)
    (accepted : pass.state.out.writeLines ((written deepest entries).map Url.text) = (none, out)) :
    pass.run site deepest entries =
      { found := pass.found ++ visited site deepest entries
        state.out := out
        state.trail := (reported site deepest entries).foldl Trail.unclaimed pass.state.trail } := by
  induction entries generalizing pass with
  | nil =>
    have nothing : written deepest [] = [] := by cases deepest <;> rfl
    have none : visited site deepest [] = [] := by cases deepest <;> rfl
    have silent : reported site deepest [] = [] := by cases deepest <;> rfl
    rw [nothing] at accepted
    cases accepted
    rw [none, silent, List.append_nil]
    exact Pass.eq_of_going going
  | cons entry rest ih =>
    show (pass.entry site deepest entry).run site deepest rest = _
    cases fate site deepest entry rest with
    | write url effect writes visits reports =>
      rw [effect pass going, visits, reports]
      rw [writes, List.map_cons] at accepted
      rcases answer : pass.state.out.writeLine url.text with ⟨error | _, after⟩
      · rw [OutStream.writeLines_cons_of_refused answer] at accepted
        cases accepted
      · rw [OutStream.writeLines_cons_of_accepted answer] at accepted
        rw [emit_of_accepted answer]
        exact ih going accepted
    | visit url effect writes visits reports =>
      rw [writes] at accepted
      rw [effect pass going, visits, reports,
        List.append_cons pass.found url (visited site deepest rest)]
      exact ih going accepted
    | report url effect writes visits reports =>
      rw [writes] at accepted
      rw [effect pass going, visits, reports]
      exact ih going accepted

theorem run_of_refused {entries : List Entry} {out : OutStream} {error : IoError}
    (going : pass.failure = none)
    (refused : pass.state.out.writeLines ((written deepest entries).map Url.text) =
      (some error, out)) :
    (pass.run site deepest entries).failure = some (refusal error) ∧
      (pass.run site deepest entries).state.out = out := by
  induction entries generalizing pass with
  | nil =>
    have nothing : written deepest [] = [] := by cases deepest <;> rfl
    rw [nothing] at refused
    cases refused
  | cons entry rest ih =>
    show ((pass.entry site deepest entry).run site deepest rest).failure = _ ∧
      ((pass.entry site deepest entry).run site deepest rest).state.out = _
    cases fate site deepest entry rest with
    | write url effect writes visits reports =>
      rw [effect pass going]
      rw [writes, List.map_cons] at refused
      rcases answer : pass.state.out.writeLine url.text with ⟨other | _, after⟩
      · rw [OutStream.writeLines_cons_of_refused answer] at refused
        cases refused
        rw [emit_of_refused answer, run_of_failed (by simp)]
        exact ⟨rfl, rfl⟩
      · rw [OutStream.writeLines_cons_of_accepted answer] at refused
        rw [emit_of_accepted answer]
        exact ih going refused
    | visit url effect writes visits reports =>
      rw [writes] at refused
      rw [effect pass going]
      exact ih going refused
    | report url effect writes visits reports =>
      rw [writes] at refused
      rw [effect pass going]
      exact ih going refused

end Pass

theorem status_unclaimed (urls : List Url) (trail : Trail) :
    (urls.foldl Trail.unclaimed trail).status =
      trail.status ||| ExitStatus.all (urls.map fun _ => .noHandler) := by
  induction urls generalizing trail with
  | nil => exact (ExitStatus.union_success _).symm
  | cons url rest ih =>
    rw [List.foldl_cons, ih, List.map_cons, ExitStatus.all_cons, ← ExitStatus.union_assoc]
    rfl

theorem status_resolved (trail : Trail) (url : Url) (resolution : Resolution) :
    (trail.resolved url resolution).status =
      trail.status ||| ExitStatus.ofFetch resolution.result := by
  unfold Trail.resolved
  cases resolution.result with
  | ok => exact (ExitStatus.union_success _).symm
  | error => rfl

/-- The bits that a target contributes. -/
def bits (site : Site) (deepest : Bool) (url : Url) : ExitStatus :=
  ExitStatus.ofFetch (site.expand url).result |||
    ExitStatus.all ((reported site deepest (site.entries url)).map fun _ => .noHandler)

theorem Pass.target_of_written {site : Site} {deepest : Bool} {url : Url} {state : State}
    {out : OutStream}
    (accepted : state.out.writeLines ((written deepest (site.entries url)).map Url.text) = (none, out)) :
    (target site deepest url state).failure = none ∧
      (target site deepest url state).found = visited site deepest (site.entries url) ∧
      (target site deepest url state).state.out = out ∧
      (target site deepest url state).state.trail.status =
        state.trail.status ||| bits site deepest url := by
  have effect : target site deepest url state = _ := run_of_written rfl accepted
  rw [effect]
  refine ⟨rfl, rfl, rfl, ?_⟩
  rw [status_unclaimed, status_resolved, bits, ExitStatus.union_assoc]
  rfl

theorem Pass.target_of_refused {site : Site} {deepest : Bool} {url : Url} {state : State}
    {out : OutStream} {error : IoError}
    (refused : state.out.writeLines ((written deepest (site.entries url)).map Url.text) =
      (some error, out)) :
    (target site deepest url state).failure = some (refusal error) ∧
      (target site deepest url state).state.out = out := by
  rw [target]
  exact run_of_refused rfl refused

/-- The URLs that a target on a level has written. -/
def writtenAt (site : Site) (depth : Nat) (target : Url × Nat) : List Url :=
  written (depth ≤ target.2) (site.entries target.1)

def bitsAt (site : Site) (depth : Nat) (target : Url × Nat) : ExitStatus :=
  bits site (depth ≤ target.2) target.1

/-- Visit targets in order without regard to what they lead to. -/
def visitAll (site : Site) (depth : Nat) : List (Url × Nat) → State → Option ErrorChain × State
  | [], state => (none, state)
  | (url, level) :: rest, state =>
    match (Pass.target site (depth ≤ level) url state).failure with
    | some failure => (some failure, (Pass.target site (depth ≤ level) url state).state)
    | none => visitAll site depth rest (Pass.target site (depth ≤ level) url state).state

theorem visitAll_of_written {site : Site} {depth : Nat} {targets : List (Url × Nat)}
    {out : OutStream} (state : State)
    (accepted : state.out.writeLines ((targets.flatMap (writtenAt site depth)).map Url.text) =
      (none, out)) :
    (visitAll site depth targets state).1 = none ∧
      (visitAll site depth targets state).2.out = out ∧
      (visitAll site depth targets state).2.trail.status =
        state.trail.status ||| ExitStatus.all (targets.map (bitsAt site depth)) := by
  induction targets generalizing state with
  | nil =>
    cases accepted
    exact ⟨rfl, rfl, (ExitStatus.union_success _).symm⟩
  | cons target rest ih =>
    obtain ⟨url, level⟩ := target
    rw [List.flatMap_cons, List.map_append] at accepted
    cases first : state.out.writeLines ((writtenAt site depth (url, level)).map Url.text) with
    | mk answer between =>
      cases answer with
      | some error =>
        rw [OutStream.writeLines_append_of_refused first] at accepted
        cases accepted
      | none =>
        rw [OutStream.writeLines_append first] at accepted
        obtain ⟨going, _, wrote, contributed⟩ := Pass.target_of_written first
        rw [← wrote] at accepted
        obtain ⟨whole, end_, status⟩ := ih _ accepted
        simp only [visitAll, going]
        refine ⟨whole, end_, ?_⟩
        rw [status, contributed, List.map_cons, ExitStatus.all_cons, ← ExitStatus.union_assoc]
        rfl

theorem visitAll_of_refused {site : Site} {depth : Nat} {targets : List (Url × Nat)}
    {out : OutStream} {error : IoError} (state : State)
    (refused : state.out.writeLines ((targets.flatMap (writtenAt site depth)).map Url.text) =
      (some error, out)) :
    (visitAll site depth targets state).1 = some (refusal error) ∧
      (visitAll site depth targets state).2.out = out := by
  induction targets generalizing state with
  | nil => cases refused
  | cons target rest ih =>
    obtain ⟨url, level⟩ := target
    rw [List.flatMap_cons, List.map_append] at refused
    cases first : state.out.writeLines ((writtenAt site depth (url, level)).map Url.text) with
    | mk answer between =>
      cases answer with
      | some other =>
        rw [OutStream.writeLines_append_of_refused first] at refused
        cases refused
        obtain ⟨failed, wrote⟩ := Pass.target_of_refused first
        simp only [visitAll, failed]
        exact ⟨trivial, wrote⟩
      | none =>
        rw [OutStream.writeLines_append first] at refused
        obtain ⟨going, _, wrote, _⟩ := Pass.target_of_written first
        rw [← wrote] at refused
        simp only [visitAll, going]
        exact ih _ refused

/-- Targets on a level, followed by what they lead to on as many levels below. -/
def tower (site : Site) : Nat → Nat → List Url → List (Url × Nat)
  | 0, level, targets => targets.map (·, level)
  | below + 1, level, targets =>
    targets.map (·, level) ++ tower site below (level + 1) (targets.flatMap site.next)

theorem visit_cons (site : Site) (depth : Nat) (url : Url) (level : Nat) (rest : List (Url × Nat))
    (state : State) :
    visit site depth ((url, level) :: rest) state =
      match (Pass.target site (depth ≤ level) url state).failure with
      | some failure => (some failure, (Pass.target site (depth ≤ level) url state).state)
      | none =>
        visit site depth
          (rest ++ (Pass.target site (depth ≤ level) url state).found.map (·, level + 1))
          (Pass.target site (depth ≤ level) url state).state := by
  cases failure : (Pass.target site (depth ≤ level) url state).failure with
  | some failure => simp only [visit, failure]
  | none => simp only [visit, failure]

/-- Unless a line is refused, all targets that are to be visited in turn are found. -/
theorem Pass.target_found {site : Site} {deepest : Bool} {url : Url} {state : State}
    (going : (target site deepest url state).failure = none) :
    (target site deepest url state).found = visited site deepest (site.entries url) := by
  cases answer : state.out.writeLines ((written deepest (site.entries url)).map Url.text) with
  | mk error out =>
    cases error with
    | none => exact (target_of_written answer).2.1
    | some error =>
      rw [(target_of_refused answer).1] at going
      cases going

/-- While the targets of one level are visited, those found for the next gather behind them. The
outer induction is on the levels below, whose last part is the hypothesis, the inner one on what is
left of the level. -/
theorem visit_append {site : Site} {depth level below : Nat}
    (above : level + (below + 1) = depth)
    (next : ∀ targets state, visit site depth (targets.map (·, level + 1)) state =
      visitAll site depth (tower site below (level + 1) targets) state)
    (left found : List Url) (state : State) :
    visit site depth (left.map (·, level) ++ found.map (·, level + 1)) state =
      visitAll site depth (left.map (·, level) ++
        tower site below (level + 1) (found ++ left.flatMap site.next)) state := by
  induction left generalizing found state with
  | nil =>
    rw [List.flatMap_nil, List.append_nil]
    exact next found state
  | cons url rest ih =>
    have notDeepest : decide (depth ≤ level) = false := decide_eq_false (by omega)
    simp only [List.map_cons, List.cons_append]
    rw [visit_cons, visitAll, notDeepest]
    cases failure : (Pass.target site false url state).failure with
    | some failure => rfl
    | none =>
      have more : (Pass.target site false url state).found = site.next url :=
        Pass.target_found failure
      have moved : found.map (·, level + 1) ++ (site.next url).map (·, level + 1) =
          (found ++ site.next url).map (·, level + 1) := List.map_append.symm
      simp only
      rw [more, List.append_assoc, moved, ih, List.append_assoc, List.flatMap_cons]

theorem visit_level {site : Site} {depth : Nat} (below level : Nat) (above : level + below = depth)
    (targets : List Url) (state : State) :
    visit site depth (targets.map (·, level)) state =
      visitAll site depth (tower site below level targets) state := by
  induction below generalizing level targets state with
  | zero =>
    have deepest : decide (depth ≤ level) = true := decide_eq_true (by omega)
    induction targets generalizing state with
    | nil => rw [List.map_nil, visit]; rfl
    | cons url rest ih =>
      rw [List.map_cons, visit_cons, deepest]
      simp only [tower, List.map_cons, visitAll, deepest]
      cases failure : (Pass.target site true url state).failure with
      | some failure => rfl
      | none =>
        simp only [Pass.target_found_of_deepest, List.map_nil, List.append_nil]
        exact ih _
  | succ below ih =>
    have whole := visit_append above (ih (level + 1) (by omega)) targets [] state
    rw [List.map_nil, List.append_nil, List.nil_append] at whole
    exact whole

theorem mem_tower {site : Site} {below level : Nat} {targets : List Url} {target : Url × Nat} :
    target ∈ tower site below level targets ↔
      ∃ distance ≤ below, target.1 ∈ site.level targets distance ∧ target.2 = level + distance := by
  obtain ⟨url, place⟩ := target
  induction below generalizing level targets with
  | zero =>
    simp only [tower, List.mem_map, Prod.mk.injEq, Nat.le_zero, exists_eq_left, Site.level,
      Nat.add_zero]
    constructor
    · rintro ⟨other, member, rfl, rfl⟩
      exact ⟨member, rfl⟩
    · rintro ⟨member, rfl⟩
      exact ⟨url, member, rfl, rfl⟩
  | succ below ih =>
    rw [tower, List.mem_append, ih]
    simp only [List.mem_map, Prod.mk.injEq, Site.level_next]
    constructor
    · rintro (⟨other, member, rfl, rfl⟩ | ⟨distance, within, member, place⟩)
      · exact ⟨0, Nat.zero_le _, member, rfl⟩
      · exact ⟨distance + 1, Nat.succ_le_succ within, member, by omega⟩
    · rintro ⟨distance, within, member, place⟩
      cases distance with
      | zero => exact Or.inl ⟨url, member, rfl, place.symm⟩
      | succ distance => exact Or.inr ⟨distance, Nat.le_of_succ_le_succ within, member, by omega⟩

end Listing

/-- The URLs that a listing writes which goes so many levels below its root. -/
def Site.listing (site : Site) (root : Url) (below : Nat) : List Url :=
  (List.range below).flatMap (fun distance => (site.level [root] distance).flatMap site.files) ++
    (site.level [root] below).flatMap fun url => (site.entries url).map Entry.url

namespace Listing

theorem tower_written {site : Site} {depth below level : Nat} (above : level + below = depth)
    (targets : List Url) :
    (tower site below level targets).flatMap (writtenAt site depth) =
      (List.range below).flatMap (fun distance => (site.level targets distance).flatMap site.files) ++
        (site.level targets below).flatMap fun url => (site.entries url).map Entry.url := by
  induction below generalizing level targets with
  | zero =>
    have deepest : decide (depth ≤ level) = true := decide_eq_true (by omega)
    simp only [tower, List.flatMap_map, writtenAt, deepest, written, if_true, List.range_zero,
      List.flatMap_nil, List.nil_append, Site.level]
  | succ below ih =>
    have notDeepest : decide (depth ≤ level) = false := decide_eq_false (by omega)
    have first : (targets.map (·, level)).flatMap (writtenAt site depth) =
        targets.flatMap site.files := by
      simp only [List.flatMap_map, writtenAt, notDeepest, written, Bool.false_eq_true, if_false]
      rfl
    rw [tower, List.flatMap_append, first, ih (by omega), List.range_succ_eq_map, List.flatMap_cons,
      List.flatMap_map, List.append_assoc]
    simp only [Site.level_next, Site.level]

section

variable {site : Site} {root : Url} {below : Nat} {out after : OutStream}

theorem visit_root (site : Site) (root : Url) (below : Nat) (state : State) :
    visit site (below + 1) [(root, 1)] state =
      visitAll site (below + 1) (tower site below 1 [root]) state :=
  visit_level below 1 (Nat.add_comm 1 below) [root] state

theorem run_of_written
    (accepted : out.writeLines ((site.listing root below).map Url.text) = (none, after)) :
    (run site (below + 1) root out).outcome = .ofResult (result none (run site (below + 1) root out).state) ∧
      (run site (below + 1) root out).state.out = after ∧
      (run site (below + 1) root out).state.trail.status =
        ExitStatus.all ((tower site below 1 [root]).map (bitsAt site (below + 1))) := by
  rw [Site.listing, ← tower_written (Nat.add_comm 1 below)] at accepted
  obtain ⟨whole, wrote, status⟩ := visitAll_of_written { out } accepted
  unfold run
  rw [visit_root]
  refine ⟨?_, wrote, ?_⟩
  · simp only [whole]
  · rw [status]
    exact ExitStatus.success_union _

theorem run_of_refused {error : IoError}
    (refused : out.writeLines ((site.listing root below).map Url.text) = (some error, after)) :
    (run site (below + 1) root out).outcome = .fatal (refusal error) ∧
      (run site (below + 1) root out).state.out = after := by
  rw [Site.listing, ← tower_written (Nat.add_comm 1 below)] at refused
  obtain ⟨failed, wrote⟩ := visitAll_of_refused { out } refused
  unfold run
  rw [visit_root]
  refine ⟨?_, wrote⟩
  simp only [failed, result, JobOutcome.ofResult, JobFailure.outcome]

theorem result_of_fault {state : State} {error : IoError}
    (fault : state.out.flushFault = some error) :
    result none state =
      .error (.fatal (ErrorChain.inContext "failed to flush output" [.io error])) := by
  simp only [result, OutStream.flush, fault]

theorem result_of_flushed {state : State} (noFault : state.out.flushFault = none) :
    result none state = .ok state.trail.status := by
  simp only [result, OutStream.flush, noFault]

theorem bits_contains_noHandler {deepest : Bool} {url : Url} :
    (bits site deepest url).contains .noHandler = true ↔
      deepest = false ∧ ∃ child ∈ site.children url, site.claims child = false := by
  rw [bits, ExitStatus.isBit_noHandler.contains_union,
    or_iff_right (ExitStatus.not_ofFetch_contains_noHandler _), ExitStatus.isBit_noHandler.contains_all]
  simp only [List.mem_map, mem_reported]
  constructor
  · rintro ⟨_, ⟨child, ⟨notDeepest, named, unclaimed⟩, rfl⟩, _⟩
    exact ⟨notDeepest, child, named, unclaimed⟩
  · rintro ⟨notDeepest, child, named, unclaimed⟩
    exact ⟨.noHandler, ⟨child, ⟨notDeepest, named, unclaimed⟩, rfl⟩, by decide⟩

theorem bits_contains_of_other {deepest : Bool} {url : Url} {bit : ExitStatus}
    (isBit : bit.IsBit) (other : ExitStatus.noHandler.contains bit = false) :
    (bits site deepest url).contains bit = true ↔
      (ExitStatus.ofFetch (site.expand url).result).contains bit = true := by
  have notReported : ¬ (ExitStatus.all ((reported site deepest (site.entries url)).map
      fun _ => .noHandler)).contains bit = true := by
    rw [isBit.contains_all]
    rintro ⟨_, member, inside⟩
    obtain ⟨_, _, rfl⟩ := List.mem_map.mp member
    rw [other] at inside
    cases inside
  rw [bits, isBit.contains_union]
  exact or_iff_left notReported

theorem known_contains_bits (deepest : Bool) (url : Url) :
    (ExitStatus.http ||| .missing ||| .noHandler).contains (bits site deepest url) = true := by
  rw [bits, ExitStatus.contains_of_union, ExitStatus.contains_all_iff]
  refine ⟨?_, ?_⟩
  · rcases ExitStatus.ofFetch_cases (site.expand url).result with equal | equal | equal <;>
      rw [equal] <;> decide
  · intro status member
    obtain ⟨_, _, rfl⟩ := List.mem_map.mp member
    decide

/-- A bit is met when a target on some level contributes it. -/
theorem tower_bits_contains {bit : ExitStatus} (isBit : bit.IsBit) :
    (ExitStatus.all ((tower site below 1 [root]).map (bitsAt site (below + 1)))).contains bit = true ↔
      ∃ distance ≤ below, ∃ url ∈ site.level [root] distance,
        (bits site (decide (below ≤ distance)) url).contains bit = true := by
  have same (distance : Nat) : decide (below + 1 ≤ 1 + distance) = decide (below ≤ distance) := by
    simp only [Nat.add_comm 1 distance, Nat.add_le_add_iff_right]
  rw [isBit.contains_all]
  simp only [List.mem_map]
  constructor
  · rintro ⟨_, ⟨⟨url, level⟩, member, rfl⟩, inside⟩
    obtain ⟨distance, within, member, rfl⟩ := mem_tower.mp member
    rw [bitsAt, same] at inside
    exact ⟨distance, within, url, member, inside⟩
  · rintro ⟨distance, within, url, member, inside⟩
    refine ⟨_, ⟨(url, 1 + distance), mem_tower.mpr ⟨distance, within, member, rfl⟩, rfl⟩, ?_⟩
    rw [bitsAt, same]
    exact inside

end

end Listing

namespace Registry

section

variable {registry : Registry} {get : Url → Exchange} {root : Url} {below : Nat}

/-- A bit that failing playlists add, told by what came back for those on the levels visited. -/
theorem tower_contains_iff {bit : ExitStatus} {Fails : Exchange → Prop} (isBit : bit.IsBit)
    (other : ExitStatus.noHandler.contains bit = false)
    (resolving : ∀ url, (ExitStatus.ofFetch
      ((registry.siteBy get).expand url).result).contains bit = true ↔
        registry.IsPlaylist url ∧ Fails (get url)) :
    (ExitStatus.all ((Listing.tower (registry.siteBy get) below 1 [root]).map
        (Listing.bitsAt (registry.siteBy get) (below + 1)))).contains bit = true ↔
      ∃ distance ≤ below, ∃ url ∈ (registry.siteBy get).level [root] distance,
        registry.IsPlaylist url ∧ Fails (get url) := by
  rw [Listing.tower_bits_contains isBit]
  simp only [Listing.bits_contains_of_other isBit other, resolving]

/-- Unclaimed targets are reported above the deepest level. -/
theorem tower_contains_noHandler_iff :
    (ExitStatus.all ((Listing.tower (registry.siteBy get) below 1 [root]).map
        (Listing.bitsAt (registry.siteBy get) (below + 1)))).contains .noHandler = true ↔
      ∃ distance < below, ∃ url ∈ (registry.siteBy get).level [root] distance,
        ∃ child ∈ (registry.siteBy get).children url, registry.find? child = none := by
  rw [Listing.tower_bits_contains ExitStatus.isBit_noHandler]
  simp only [Listing.bits_contains_noHandler, decide_eq_false_iff_not, not_le, not_claims_iff]
  constructor
  · rintro ⟨distance, _, url, member, above, unclaimed⟩
    exact ⟨distance, above, url, member, unclaimed⟩
  · rintro ⟨distance, above, url, member, unclaimed⟩
    exact ⟨distance, Nat.le_of_lt above, url, member, above, unclaimed⟩

end

/-- A listing writes level by level. The last level is written as it is; above it, files are written,
and claimed targets make up the next level. A line is written in two pieces, and a piece that is
refused ends the listing there. -/
theorem listing_level_by_level (registry : Registry) (builtIn : registry.BuiltIn)
    (get : Url → Exchange) (root : Url) (below : Nat) (out : OutStream) :
    let site := registry.siteBy get
    let lines := (site.listing root below).map Url.text
    let pieces := lines.flatMap OutStream.piecesOf
    let report := Listing.run site (below + 1) root out
    (∀ k error, k < pieces.length → (∀ j < k, out.refuses (out.attempts + j) = none) →
      out.refuses (out.attempts + k) = some error →
      report.outcome = .fatal (Listing.refusal error) ∧
        report.state.out.pieces = out.pieces ++ pieces.take k) ∧
    ((∀ j < pieces.length, out.refuses (out.attempts + j) = none) →
      report.state.out.pieces = out.pieces ++ pieces ∧
      (∀ error, out.flushFault = some error → report.outcome =
        .fatal (ErrorChain.inContext "failed to flush output" [.io error])) ∧
      (out.flushFault = none → ∃ status, report.outcome = .completed status ∧
        (status.contains .noHandler = true ↔ ∃ distance < below,
          ∃ url ∈ site.level [root] distance, ∃ child ∈ site.children url,
            registry.find? child = none) ∧
        (status.contains .missing = true ↔ ∃ distance ≤ below,
          ∃ url ∈ site.level [root] distance, registry.IsPlaylist url ∧ (get url).IsMissing) ∧
        (status.contains .http = true ↔ ∃ distance ≤ below,
          ∃ url ∈ site.level [root] distance, registry.IsPlaylist url ∧ (get url).IsBroken) ∧
        (ExitStatus.http ||| .missing ||| .noHandler).contains status = true)) := by
  intro site lines pieces report
  refine ⟨?_, ?_⟩
  · intro k error inside accepts refuses
    obtain ⟨fatal, wrote⟩ :=
      Listing.run_of_refused (OutStream.writePieces_of_refused inside accepts refuses)
    exact ⟨fatal, by rw [wrote]⟩
  intro accepts
  obtain ⟨outcome, wrote, status⟩ :=
    Listing.run_of_written (OutStream.writePieces_of_accepted accepts)
  have flushes : report.state.out.flushFault = out.flushFault := by rw [wrote]
  refine ⟨by rw [wrote], ?_, ?_⟩
  · intro error fault
    rw [fault] at flushes
    exact outcome.trans (congrArg JobOutcome.ofResult (Listing.result_of_fault flushes))
  intro noFault
  rw [noFault] at flushes
  have completed : report.outcome = .completed report.state.trail.status :=
    outcome.trans (congrArg JobOutcome.ofResult (Listing.result_of_flushed flushes))
  refine ⟨report.state.trail.status, completed, ?_, ?_, ?_, ?_⟩
  · rw [status]
    exact tower_contains_noHandler_iff
  · rw [status]
    exact tower_contains_iff ExitStatus.isBit_missing (by decide) (builtIn.expand_missing_iff get)
  · rw [status]
    exact tower_contains_iff ExitStatus.isBit_http (by decide) (builtIn.expand_http_iff get)
  · rw [status, ExitStatus.contains_all_iff]
    intro part member
    obtain ⟨_, _, rfl⟩ := List.mem_map.mp member
    exact Listing.known_contains_bits _ _

theorem listing_level_by_level_cyclic :
    standard.BuiltIn ∧
    (Listing.run (standard.siteBy cyclicWeb.get) 2 (cyclicUrl "a.m3u") {}).state.out.pieces =
      ["a.m3u", "b.m3u", "f.jpg", "f.jpg", "x", "a.m3u", "g.jpg", "x", "f.jpg", "f.jpg"].flatMap
        (fun name => ["http://h/" ++ name, "\n"]) ∧
    (∃ status, (Listing.run (standard.siteBy cyclicWeb.get) 2 (cyclicUrl "a.m3u") {}).outcome =
      .completed status ∧ status.contains .noHandler = true) ∧
    (Listing.run (standard.siteBy cyclicWeb.get) 2 (cyclicUrl "a.m3u")
      (.refusingFrom 3 .brokenPipe)).outcome =
        .fatal [.text "failed to write URL", .io .brokenPipe] ∧
    (Listing.run (standard.siteBy cyclicWeb.get) 2 (cyclicUrl "a.m3u")
      (.refusingFrom 3 .brokenPipe)).state.out.pieces =
        ["a.m3u", "b.m3u", "f.jpg"].flatMap (fun name => ["http://h/" ++ name, "\n"]) := by
  have lines : (((standard.siteBy cyclicWeb.get).listing (cyclicUrl "a.m3u") 1).map Url.text) =
      ["a.m3u", "b.m3u", "f.jpg", "f.jpg", "x", "a.m3u", "g.jpg", "x", "f.jpg", "f.jpg"].map
        ("http://h/" ++ ·) := by
    decide +kernel
  obtain ⟨_, whole⟩ :=
    listing_level_by_level standard standard_builtIn cyclicWeb.get (cyclicUrl "a.m3u") 1 {}
  obtain ⟨cut, _⟩ := listing_level_by_level standard standard_builtIn cyclicWeb.get
    (cyclicUrl "a.m3u") 1 (.refusingFrom 3 .brokenPipe)
  rw [lines] at whole cut
  obtain ⟨wrote, _, completes⟩ := whole fun _ _ => rfl
  obtain ⟨status, outcome, unclaimed, _⟩ := completes rfl
  obtain ⟨fatal, kept⟩ := cut 6 .brokenPipe (by decide) (by decide) (by decide)
  refine ⟨standard_builtIn, wrote, ⟨status, outcome, unclaimed.mpr ?_⟩, fatal, kept⟩
  exact ⟨0, Nat.zero_lt_one, cyclicUrl "a.m3u", List.mem_singleton_self _, cyclicUrl "x",
    by decide +kernel, by decide +kernel⟩

end Registry
end BatchFetch
