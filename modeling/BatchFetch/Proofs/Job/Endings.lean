import BatchFetch.Job.Kind
import BatchFetch.Proofs.Dispatch.Journal
import BatchFetch.Proofs.Job.Failures
import BatchFetch.Proofs.Job.Levels
import Mathlib.Data.List.Forall2

namespace BatchFetch

/-- Only bits with a name have been met. -/
def Trail.IsNamed (trail : Trail) : Prop :=
  ExitStatus.known.contains trail.status = true

theorem Trail.isNamed_empty : ({} : Trail).IsNamed := by
  show ExitStatus.known.contains .success = true
  decide

theorem Trail.IsNamed.unclaimed {trail : Trail} (named : trail.IsNamed) (url : Url) :
    (trail.unclaimed url).IsNamed :=
  ExitStatus.contains_of_union.mpr ⟨named, by decide⟩

theorem Trail.IsNamed.resolved {trail : Trail} (named : trail.IsNamed) (url : Url)
    (resolution : Resolution) : (trail.resolved url resolution).IsNamed := by
  rw [IsNamed, Listing.status_resolved]
  exact ExitStatus.contains_of_union.mpr ⟨named, ExitStatus.known_contains_ofFetch _⟩

/-- How a job ends that has a handler. -/
inductive JobOutcome.Handled : JobOutcome → Prop
  | completed {status : ExitStatus} : ExitStatus.known.contains status = true →
      Handled (.completed status)
  | aborted : Handled .aborted
  | fatal (error : ErrorChain) : Handled (.fatal error)

theorem JobOutcome.Handled.ne_notFound {outcome : JobOutcome} (handled : outcome.Handled) :
    outcome ≠ .notFound := by
  rintro rfl
  cases handled

theorem JobOutcome.status_contains_iff {outcome : JobOutcome} {bit : ExitStatus} (isBit : bit.IsBit) :
    outcome.status.contains bit = true ↔
      (∃ part, outcome = .completed part ∧ part.contains bit = true) ∨
        (outcome = .notFound ∧ bit = .noHandler) := by
  cases outcome with
  | completed part => simp [status]
  | notFound => simp [status, ExitStatus.isBit_noHandler.contains_iff_eq isBit]
  | aborted | fatal => simp [status, isBit.not_success_contains]

theorem JobOutcome.status_eq_success_iff {outcome : JobOutcome}
    (calm : ∀ error, outcome ≠ .fatal error) :
    outcome.status = .success ↔ outcome = .completed .success ∨ outcome = .aborted := by
  cases outcome with
  | completed part => simp [status]
  | aborted => simp [status]
  | notFound => exact iff_of_false (by decide) (by simp)
  | fatal error => exact absurd rfl (calm error)

namespace Listing

variable {site : Site} {deepest : Bool}

theorem Pass.emit_trail (pass : Pass) (url : Url) : (pass.emit url).state.trail = pass.state.trail := by
  simp only [emit]
  split <;> rfl

theorem Pass.entry_isNamed {pass : Pass} (named : pass.state.trail.IsNamed) (entry : Entry) :
    (pass.entry site deepest entry).state.trail.IsNamed := by
  unfold Pass.entry
  split
  · exact named
  · cases entry with
    | file url =>
      simp only [emit_trail]
      exact named
    | queue child =>
      simp only
      split
      · rw [emit_trail]
        exact named
      · split
        · exact named
        · exact named.unclaimed child

theorem Pass.run_isNamed {pass : Pass} (named : pass.state.trail.IsNamed) (entries : List Entry) :
    (pass.run site deepest entries).state.trail.IsNamed := by
  induction entries generalizing pass with
  | nil => exact named
  | cons entry rest ih => exact ih (entry_isNamed named entry)

theorem visit_isNamed {depth : Nat} (queue : List (Url × Nat)) {state : State}
    (named : state.trail.IsNamed) : (visit site depth queue state).2.trail.IsNamed := by
  -- A turn puts targets into the queue, so the induction is on the turns.
  fun_induction visit site depth queue state with
  | case1 => exact named
  | case2 state url level rest pass failure failed =>
    exact Pass.run_isNamed (named.resolved url (site.expand url)) _
  | case3 state url level rest pass going ih =>
    exact ih (Pass.run_isNamed (named.resolved url (site.expand url)) _)

theorem run_handled (site : Site) (depth : Nat) (root : Url) (out : OutStream) :
    (run site depth root out).outcome.Handled := by
  have named : (visit site depth [(root, 1)] { out }).2.trail.IsNamed :=
    visit_isNamed [(root, 1)] Trail.isNamed_empty
  unfold run
  generalize visit site depth [(root, 1)] { out } = visited at named
  obtain ⟨failure, state⟩ := visited
  simp only [result]
  split
  · exact .fatal _
  · exact .fatal _
  · exact .completed named

end Listing

theorem Download.run?_handled {site : Site} {settings : DownloadSettings} {root : Url}
    {files : FileSystem} {report : Report} (ran : run? site settings root files = some report) :
    report.outcome.Handled := by
  obtain ⟨deeds, last, steps, ended, rfl⟩ := run?_eq_some_iff.mp ran
  rw [Stage.report, Stage.outcome]
  cases last.aborted with
  | true => exact .aborted
  | false => exact .completed (steps.contributed_of_start ended).known

/-- A target that is no URL, or one that no handler claims. -/
def Registry.Refuses (registry : Registry) (target : String) : Prop :=
  ∀ url, Url.parse target registry.naming = .ok url → registry.find? url = none

theorem Registry.findFor?_eq_none_iff {registry : Registry} {target : String} :
    registry.findFor? target = none ↔ registry.Refuses target := by
  unfold findFor? Refuses
  cases Url.parse target registry.naming with
  | error e => simp
  | ok url => simp

namespace JobKind

variable {kind : JobKind} {registry : Registry} {get : Url → Exchange} {target : String}

/-- How the job of a target ends. -/
structure Answers (kind : JobKind) (registry : Registry) (get : Url → Exchange) (target : String)
    (outcome : JobOutcome) : Prop where
  /-- The job has run under some store and from some state, and has come back. -/
  ran : ∃ shown world events after,
    (kind.factory registry get).run target shown (some world) = (outcome, events, some after)
  notFound_iff : outcome = .notFound ↔ registry.Refuses target
  handled : outcome ≠ .notFound → outcome.Handled

theorem job_handled {url : Url} {handler : Handler} {store : Store} {world after : World}
    {outcome : JobOutcome} {events : List Event}
    (ran : (kind.job registry get url handler store).2 world = some (outcome, events, after)) :
    outcome.Handled := by
  cases kind with
  | download =>
    obtain ⟨report, run, same⟩ := Option.map_eq_some_iff.mp ran
    cases same
    exact Download.run?_handled run
  | list depth =>
    cases ran
    exact Listing.run_handled ..

theorem run_of_refused (refused : registry.Refuses target) (shown : Store) (state : Option World) :
    (kind.factory registry get).run target shown state = (.notFound, [], state) := by
  simp only [JobFactory.run, factory, Registry.findFor?_eq_none_iff.mpr refused, JobFailure.outcome]

/-- The job of a target gives an answer, or it is lost and the batch with it. -/
theorem run_answers (kind : JobKind) (registry : Registry) (get : Url → Exchange) (target : String)
    (shown : Store) (world : World) :
    let ran := (kind.factory registry get).run target shown (some world)
    (∃ after, ran.2.2 = some after ∧ kind.Answers registry get target ran.1) ∨
      (ran.2.2 = none ∧ ∃ error, ran.1 = .fatal error) := by
  intro ran
  have back {outcome : JobOutcome} {events : List Event} {after : World}
      (done : ran = (outcome, events, some after))
      (answers : (outcome = .notFound ↔ registry.Refuses target) ∧
        (outcome ≠ .notFound → outcome.Handled)) :
      ∃ after, ran.2.2 = some after ∧ kind.Answers registry get target ran.1 := by
    rw [done]
    exact ⟨after, rfl, ⟨shown, world, events, after, done⟩, answers.1, answers.2⟩
  cases found : registry.findFor? target with
  | none =>
    have refused := Registry.findFor?_eq_none_iff.mp found
    exact Or.inl (back (run_of_refused refused shown (some world))
      ⟨iff_of_true rfl refused, absurd rfl⟩)
  | some claimed =>
    have accepted : ¬ registry.Refuses target := by
      rw [← Registry.findFor?_eq_none_iff, found]
      exact Option.some_ne_none claimed
    have ran_eq : ran = (kind.factory registry get).run target shown (some world) := rfl
    simp only [JobFactory.run, factory, found] at ran_eq
    cases came : (kind.job registry get claimed.1 claimed.2 shown).2 world with
    | none =>
      simp only [Job.ofPartial, came] at ran_eq
      exact Or.inr ⟨by rw [ran_eq], [], by rw [ran_eq]⟩
    | some answer =>
      obtain ⟨outcome, events, after⟩ := answer
      have handled := job_handled came
      simp only [Job.ofPartial, came] at ran_eq
      exact Or.inl (back ran_eq ⟨iff_of_false handled.ne_notFound accepted, fun _ => handled⟩)

/-- A job comes back if it is a listing, or if its target leads to finitely many others. -/
theorem run_isSome (comes : kind ≠ .download ∨ ∀ url handler,
      registry.findFor? target = some (url, handler) →
        (registry.siteBy get).FinitelyReaches url) (shown : Store) (world : World) :
    ((kind.factory registry get).run target shown (some world)).2.2.isSome := by
  cases found : registry.findFor? target with
  | none => rw [run_of_refused (Registry.findFor?_eq_none_iff.mp found), Option.isSome_some]
  | some claimed =>
    have came : ((kind.job registry get claimed.1 claimed.2 shown).2 world).isSome := by
      cases kind with
      | list depth => rfl
      | download =>
        have finite := comes.resolve_left (absurd rfl) claimed.1 claimed.2 found
        exact Option.isSome_map.trans (Download.run?_isSome _ finite world.files)
    obtain ⟨answer, came⟩ := Option.isSome_iff_exists.mp came
    simp only [JobFactory.run, factory, found, Job.ofPartial, came, Option.isSome_some]

/-- Every bit that a target contributes has a name. -/
theorem Answers.known {outcome : JobOutcome} (answers : kind.Answers registry get target outcome) :
    ExitStatus.known.contains outcome.status = true := by
  by_cases refused : outcome = .notFound
  · rw [refused]
    decide
  · cases answers.handled refused with
    | completed inside => exact inside
    | aborted | fatal => exact ExitStatus.contains_success _

theorem notFound_mem_iff {targets : List String} {outcomes : List JobOutcome}
    (answers : List.Forall₂ (kind.Answers registry get) targets outcomes) :
    .notFound ∈ outcomes ↔ ∃ target ∈ targets, registry.Refuses target := by
  induction answers with
  | nil => simp
  | cons answer _ ih =>
    rw [List.mem_cons, List.exists_mem_cons_iff, ih, eq_comm, answer.notFound_iff]

theorem known_contains_all {targets : List String} {outcomes : List JobOutcome}
    (answers : List.Forall₂ (kind.Answers registry get) targets outcomes) :
    ExitStatus.known.contains (.all (outcomes.map JobOutcome.status)) = true := by
  induction answers with
  | nil => exact ExitStatus.contains_success _
  | cons answer _ ih => exact ExitStatus.contains_of_union.mpr ⟨answer.known, ih⟩

end JobKind
end BatchFetch
