import BatchFetch.Proofs.Dispatch.Endings
import BatchFetch.Proofs.Dispatch.Unsupported
import BatchFetch.Proofs.Job.Endings
import BatchFetch.Proofs.Session.Unaffected

namespace BatchFetch

/-- What each call of a sink keeps, a note about a target keeps. -/
theorem Sink.record_keeps {τ : Type} {sink : Sink τ} {H : τ → Prop}
    (write : ∀ bytes state, H state → H (sink.write bytes state).2)
    (flush : ∀ state, H state → H (sink.flush state).2) (target : String) {state : τ}
    (now : H state) : H (sink.record target state).2 := by
  have named := write (Text.Utf8.encode target.toList) state now
  rw [record]
  split <;> rename_i wrote <;> rw [wrote] at named
  · exact named
  · have ended := write [10] _ named
    split <;> rename_i wrote <;> rw [wrote] at ended
    · exact ended
    · exact flush _ ended

namespace Session

variable {arguments : Arguments} {around : Surroundings}

/-- A file named on the command line cannot be loaded. -/
def IsUnloadable (arguments : Arguments) (around : Surroundings) : Prop :=
  ∃ path ∈ arguments.configFiles, Store.Broken .standard around.files path

/-- The file for unsupported targets cannot be opened. -/
def IsUnopenable (arguments : Arguments) (around : Surroundings) : Prop :=
  ∃ path fault, arguments.writeUnsupported = some path ∧
    (around.files.openAppend path).1 = .error fault

theorem loaded_eq_error_iff :
    (∃ cause, loaded arguments around = .error cause) ↔ IsUnloadable arguments around := by
  rw [IsUnloadable, ← loadNamed_eq_error_iff (defaults arguments around.files around.configHome).store]
  simp only [loaded, loadStore]
  cases loadNamed .standard around.files (defaults arguments around.files around.configHome).store
    arguments.configFiles <;> simp [Except.map]

theorem openUnsupported_eq_error_iff :
    (∃ cause, (openUnsupported arguments around.files).1 = .error cause) ↔
      IsUnopenable arguments around := by
  unfold openUnsupported IsUnopenable
  cases arguments.writeUnsupported with
  | none => simp
  | some path =>
    rcases opened : around.files.openAppend path with ⟨result | _, after⟩ <;>
      simp [opened, Except.mapError]

/-- The notes of an observer on the jobs of a session. There are none if it cannot be set up. -/
def journal (arguments : Arguments) (around : Surroundings) : Journal :=
  match loaded arguments around, openUnsupported arguments around.files with
  | .ok store, (.ok _, files) =>
    let factory := (JobKind.ofCount arguments.getUrls).factory around.registry around.get
    let record := arguments.writeUnsupported.map fun path => (World.sink path).record
    ((factory.observedWorkshop record).dispatch (collect arguments around).1 store
      (some { files, out := around.stdout }, {})).state.2
  | _, _ => {}

/-- How a session ends, told by how its jobs end. A job that gives no answer is fatal. -/
inductive Ends (arguments : Arguments) (around : Surroundings) (outcomes : List JobOutcome) :
    Except SessionError ExitStatus → Prop
  | unloaded {cause : ErrorChain} : IsUnloadable arguments around → outcomes = [] →
      Ends arguments around outcomes (.error (.setup cause))
  | unopened {cause : ErrorChain} : IsUnopenable arguments around → outcomes = [] →
      Ends arguments around outcomes (.error (.setup cause))
  | batch {result : Except DispatchError ExitStatus} :
      ¬ IsUnloadable arguments around → ¬ IsUnopenable arguments around →
      Ended .success (collect arguments around).1 outcomes result →
      List.Forall₂
        (fun target outcome => (JobKind.ofCount arguments.getUrls).Answers around.registry around.get
          target outcome ∨ ∃ error, outcome = .fatal error)
        (((collect arguments around).1.take outcomes.length).map Item.value) outcomes →
      Ends arguments around outcomes (result.mapError .dispatch)

/-- Recording a target does not lose what jobs work on. -/
theorem recordUnsupported_isSome (kind : JobKind) (registry : Registry) (get : Url → Exchange)
    (unsupported : Option String) (target : String) {state : Option World} (alive : state.isSome) :
    ((World.workshop kind registry get unsupported).recordUnsupported target state).2.isSome := by
  cases unsupported with
  | none => exact alive
  | some path =>
    have kept : ((World.sink path).record target state).2.isSome := by
      refine Sink.record_keeps (H := fun state : Option World => state.isSome) ?_ (fun _ alive => alive) target
        alive
      intro bytes state alive
      obtain ⟨world, rfl⟩ := Option.isSome_iff_exists.mp alive
      rfl
    simp only [Workshop.recordUnsupported, World.workshop, JobFactory.workshop, Option.map_some]
    split <;> rename_i recorded <;> rw [recorded] at kept <;> exact kept

theorem ends_of_eq {outcomes : List JobOutcome} {finished : Finished}
    {ending : Except SessionError ExitStatus × World} (same : finished.ending = ending)
    (ends : Ends arguments around outcomes ending.1) :
    Ends arguments around outcomes finished.result := by
  rw [← same] at ends
  exact ends

theorem run_ends {finished : Finished} (ran : run arguments around = some finished) :
    Ends arguments around (journal arguments around).outcomes finished.result := by
  have unloadable : _ ↔ IsUnloadable arguments around := loaded_eq_error_iff
  have unopenable : _ ↔ IsUnopenable arguments around := openUnsupported_eq_error_iff
  have ending : (run arguments around).map Finished.ending = some finished.ending := by
    rw [ran, Option.map_some]
  unfold journal
  cases load : loaded arguments around with
  | error cause =>
    rw [run_of_unloaded load] at ending
    exact ends_of_eq (Option.some.inj ending).symm (.unloaded (unloadable.mp ⟨cause, load⟩) rfl)
  | ok store =>
    rw [run_of_loaded load] at ending
    rcases opened : openUnsupported arguments around.files with ⟨cause | _, files⟩
    · rw [process_of_unopened opened] at ending
      exact ends_of_eq (Option.some.inj ending).symm
        (.unopened (unopenable.mp ⟨cause, congrArg Prod.fst opened⟩) rfl)
    · let kind := JobKind.ofCount arguments.getUrls
      let record := arguments.writeUnsupported.map fun path => (World.sink path).record
      obtain ⟨same, _, _⟩ := Workshop.dispatch_alike_observed
        (kind.factory around.registry around.get) record (collect arguments around).1 store
        (some { files, out := around.stdout }) {}
      have comes (target : String) (shown : Store) (state : Option World) (alive : state.isSome) :
          let ran := (kind.factory around.registry around.get).run target shown state
          (ran.2.2.isSome ∧ kind.Answers around.registry around.get target ran.1) ∨
            ∃ error, ran.1 = .fatal error := by
        obtain ⟨world, rfl⟩ := Option.isSome_iff_exists.mp alive
        rcases kind.run_answers around.registry around.get target shown world with
          ⟨after, left, answers⟩ | ⟨_, fatal⟩
        · exact Or.inl ⟨Option.isSome_iff_exists.mpr ⟨after, left⟩, answers⟩
        · exact Or.inr fatal
      obtain ⟨_, ended, answers⟩ := Workshop.dispatch_noted
        (kind.factory around.registry around.get) record (L := fun state : Option World => state.isSome) comes
        (fun target _ => recordUnsupported_isSome kind around.registry around.get
          arguments.writeUnsupported target)
        (collect arguments around).1 store
        (Option.isSome_some : (some { files, out := around.stdout : World }).isSome)
      -- Neither the observer nor the progress lines change the result of the batch.
      rw [← same] at ended
      rw [process_of_opened opened store] at ending
      obtain ⟨world, _, whole⟩ := Option.map_eq_some_iff.mp ending
      rw [load] at unloadable
      rw [opened] at unopenable
      refine ends_of_eq whole.symm (.batch (fun broken => ?_) (fun broken => ?_) ended answers)
      · obtain ⟨_, absurdity⟩ := unloadable.mpr broken
        cases absurdity
      · obtain ⟨_, absurdity⟩ := unopenable.mpr broken
        cases absurdity

/-- A session is cut short: it cannot be set up, or one of its jobs is fatal. -/
def IsCutShort (arguments : Arguments) (around : Surroundings) : Prop :=
  IsUnloadable arguments around ∨ IsUnopenable arguments around ∨
    ∃ error, .fatal error ∈ (journal arguments around).outcomes

theorem run_of_cutShort {finished : Finished} (ran : run arguments around = some finished)
    (cut : IsCutShort arguments around) : ∃ e, finished.result = .error e := by
  have ends := run_ends ran
  generalize finished.result = result at ends ⊢
  cases ends with
  | unloaded | unopened => exact ⟨_, rfl⟩
  | batch loadable openable ended _ =>
    rcases cut with unloadable | unopenable | fatal
    · exact absurd unloadable loadable
    · exact absurd unopenable openable
    · obtain ⟨e, rfl⟩ := ended.error_iff.mpr fatal
      exact ⟨.dispatch e, rfl⟩

/-- Outcomes of which none is fatal have what they would have otherwise. -/
theorem forall₂_of_calm {R : String → JobOutcome → Prop} {targets : List String}
    {outcomes : List JobOutcome}
    (all : List.Forall₂ (fun target outcome => R target outcome ∨ ∃ error, outcome = .fatal error)
      targets outcomes)
    (calm : ∀ error, .fatal error ∉ outcomes) : List.Forall₂ R targets outcomes := by
  induction all with
  | nil => exact .nil
  | cons answer _ ih =>
    refine .cons (answer.resolve_right ?_) (ih fun error later => calm error (.tail _ later))
    rintro ⟨error, rfl⟩
    exact calm error (.head _)

/-- A session that is not cut short has run one job for each target. -/
theorem run_of_whole {finished : Finished} (ran : run arguments around = some finished)
    (whole : ¬ IsCutShort arguments around) :
    let outcomes := (journal arguments around).outcomes
    List.Forall₂ ((JobKind.ofCount arguments.getUrls).Answers around.registry around.get)
        ((collect arguments around).1.map Item.value) outcomes ∧
      finished.result = .ok (.all (outcomes.map JobOutcome.status)) := by
  have ends := run_ends ran
  generalize finished.result = result at ends ⊢
  cases ends with
  | unloaded unloadable _ => exact absurd (Or.inl unloadable) whole
  | unopened unopenable _ => exact absurd (Or.inr (Or.inl unopenable)) whole
  | @batch result _ _ ended answers =>
    cases result with
    | error e =>
      have fatal := ended.error_iff.mp ⟨e, rfl⟩
      exact absurd (Or.inr (Or.inr fatal)) whole
    | ok status =>
      rw [ended.length_eq, List.take_length] at answers
      rw [ended.status_eq]
      exact ⟨forall₂_of_calm answers fun error member => whole (Or.inr (Or.inr ⟨error, member⟩)), rfl⟩

/-- A session ends if it cannot be set up, if it lists URLs, or if no target that it downloads leads
to others without end. -/
theorem run_isSome (comes : IsUnloadable arguments around ∨ IsUnopenable arguments around ∨
      arguments.getUrls ≠ 0 ∨ ∀ target ∈ (collect arguments around).1.map Item.value, ∀ url handler,
        around.registry.findFor? target = some (url, handler) →
          (around.registry.siteBy around.get).FinitelyReaches url) :
    (run arguments around).isSome := by
  have isSome_of_map {ending : Except SessionError ExitStatus × World}
      (same : (run arguments around).map Finished.ending = some ending) :
      (run arguments around).isSome := by
    rw [← Option.isSome_map, same, Option.isSome_some]
  cases load : loaded arguments around with
  | error cause => exact isSome_of_map (run_of_unloaded load)
  | ok store =>
    have start := run_of_loaded load
    rcases opened : openUnsupported arguments around.files with ⟨cause | _, files⟩
    · exact isSome_of_map (start.trans (process_of_unopened opened store _))
    · have loadable : ¬ IsUnloadable arguments around := by
        rw [← loaded_eq_error_iff, load]
        rintro ⟨_, absurdity⟩
        cases absurdity
      have openable : ¬ IsUnopenable arguments around := by
        rw [← openUnsupported_eq_error_iff, opened]
        rintro ⟨_, absurdity⟩
        cases absurdity
      have comes := (comes.resolve_left loadable).resolve_left openable
      let shop := World.workshop (.ofCount arguments.getUrls) around.registry around.get
        arguments.writeUnsupported
      have alive : (shop.dispatch (collect arguments around).1 store
          (some { files, out := around.stdout })).state.isSome := by
        refine Workshop.dispatchFrom_lives (L := fun state : Option World => state.isSome) ?_
          (fun target _ => recordUnsupported_isSome _ _ _ _ target) _ _ _ rfl
        intro item member shown state alive
        obtain ⟨world, rfl⟩ := Option.isSome_iff_exists.mp alive
        refine JobKind.run_isSome ?_ shown world
        refine comes.imp (fun listing => ?_) fun finite => finite _ (List.mem_map_of_mem member)
        obtain ⟨depth, some⟩ := Nat.exists_eq_succ_of_ne_zero listing
        rw [some]
        exact fun absurdity => (nomatch absurdity)
      obtain ⟨world, left⟩ := Option.isSome_iff_exists.mp alive
      rw [process_of_opened opened store] at start
      exact isSome_of_map (start.trans (Option.map_eq_some_iff.mpr ⟨world, left, rfl⟩))

/-- A session that is cut short gives 1. Any other session gives the number whose bits are those that
its targets contribute, 64 among them for each target that is no URL or that no handler claims. All
bits have a name, so that none is lost in the low byte; and the number is 0 when every target was
completed without bits or aborted. Only a download whose target leads to others without end keeps a
session from ending. -/
theorem run_exitCode (arguments : Arguments) (around : Surroundings) :
    let targets := (collect arguments around).1.map Item.value
    let outcomes := (journal arguments around).outcomes
    (∀ finished, run arguments around = some finished →
      (IsCutShort arguments around → finished.exitCode = 1) ∧
      (¬ IsCutShort arguments around → ∃ status, finished.result = .ok status ∧
        List.Forall₂ ((JobKind.ofCount arguments.getUrls).Answers around.registry around.get)
          targets outcomes ∧
        (∀ bit, bit.IsBit → (status.contains bit = true ↔
          (∃ part, .completed part ∈ outcomes ∧ part.contains bit = true) ∨
            (bit = .noHandler ∧ ∃ target ∈ targets, around.registry.Refuses target))) ∧
        ExitStatus.known.contains status = true ∧
        finished.exitCode = status.bits.toNat ∧
        (finished.exitCode = 0 ↔
          ∀ outcome ∈ outcomes, outcome = .completed .success ∨ outcome = .aborted))) ∧
    (IsUnloadable arguments around ∨ IsUnopenable arguments around ∨ arguments.getUrls ≠ 0 ∨
        (∀ target ∈ targets, ∀ url handler,
          around.registry.findFor? target = some (url, handler) →
            (around.registry.siteBy around.get).FinitelyReaches url) →
      (run arguments around).isSome) := by
  intro targets outcomes
  refine ⟨fun finished ran => ⟨fun cut => ?_, fun whole => ?_⟩, run_isSome⟩
  · obtain ⟨e, failed⟩ := run_of_cutShort ran cut
    simp only [Finished.exitCode, failed]
  obtain ⟨answers, result⟩ := run_of_whole ran whole
  have calm : ∀ outcome ∈ outcomes, ∀ error, outcome ≠ .fatal error := by
    rintro _ member error rfl
    exact whole (Or.inr (Or.inr ⟨error, member⟩))
  have known := JobKind.known_contains_all answers
  have code : finished.exitCode = (ExitStatus.all (outcomes.map JobOutcome.status)).bits.toNat := by
    rw [Finished.exitCode, result]
    exact ExitStatus.code_of_known known
  refine ⟨_, result, answers, ?_, known, code, ?_⟩
  · intro bit isBit
    rw [isBit.contains_all, ← JobKind.notFound_mem_iff answers]
    simp only [List.mem_map, exists_exists_and_eq_and, JobOutcome.status_contains_iff isBit]
    constructor
    · rintro ⟨outcome, member, ⟨part, rfl, inside⟩ | ⟨rfl, isNoHandler⟩⟩
      · exact Or.inl ⟨part, member, inside⟩
      · exact Or.inr ⟨isNoHandler, member⟩
    · rintro (⟨part, member, inside⟩ | ⟨isNoHandler, member⟩)
      · exact ⟨_, member, Or.inl ⟨part, rfl, inside⟩⟩
      · exact ⟨_, member, Or.inr ⟨rfl, isNoHandler⟩⟩
  · rw [code, ExitStatus.toNat_bits_eq_zero_iff, ExitStatus.all_eq_success_iff, List.forall_mem_map]
    exact forall₂_congr fun outcome member => JobOutcome.status_eq_success_iff (calm outcome member)

/-- Two targets that nothing claims, and what is wrong with two other command lines. -/
theorem run_exitCode_unclaimed :
    let arguments : Arguments :=
      { urls := ["odd", "a.m3u"], ignoreConfig := true,
        settings := [⟨"output", "progress", .bool false⟩] }
    let around : Surroundings := { files := {}, configHome := "/etc" }
    let unloadable := { arguments with configFiles := ["none.json"] }
    let unopenable := { arguments with writeUnsupported := some "none/log" }
    ¬ IsCutShort arguments around ∧ IsCutShort unloadable around ∧ IsCutShort unopenable around ∧
      (journal arguments around).outcomes = [.notFound, .notFound] ∧
      (∃ finished status, run arguments around = some finished ∧ finished.exitCode = 64 ∧
        finished.result = .ok status ∧ status.contains .noHandler = true ∧
        finished.exitCode = status.bits.toNat) ∧
      (∃ finished, run unloadable around = some finished ∧ finished.exitCode = 1) ∧
      ∃ finished, run unopenable around = some finished ∧ finished.exitCode = 1 := by
  intro arguments around unloadable unopenable
  have outcomes : (journal arguments around).outcomes = [.notFound, .notFound] := by decide +kernel
  have code : (run arguments around).map Finished.exitCode = some 64 := by decide +kernel
  have missing : around.files.readText "none.json" = .error .notFound := by decide +kernel
  have closed : (around.files.openAppend "none/log").1 = .error { error := .notFound } := by
    decide +kernel
  have whole : ¬ IsCutShort arguments around := by
    rintro (⟨_, absent, _⟩ | ⟨_, _, absent, _⟩ | ⟨_, member⟩)
    · cases absent
    · cases absent
    · rw [outcomes] at member
      simp at member
  have isUnloadable : IsUnloadable unloadable around :=
    ⟨"none.json", List.mem_singleton_self _, .missing missing⟩
  have isUnopenable : IsUnopenable unopenable around := ⟨"none/log", _, rfl, closed⟩
  have cut : IsCutShort unloadable around := Or.inl isUnloadable
  have cutToo : IsCutShort unopenable around := Or.inr (Or.inl isUnopenable)
  obtain ⟨finished, ran, same⟩ := Option.map_eq_some_iff.mp code
  obtain ⟨codes, _⟩ := run_exitCode arguments around
  obtain ⟨status, result, _, bits, _, number, _⟩ := (codes finished ran).2 whole
  have noHandler := (bits .noHandler ExitStatus.isBit_noHandler).mpr
    (Or.inr ⟨rfl, "odd", by decide +kernel, Registry.findFor?_eq_none_iff.mp (by decide +kernel)⟩)
  obtain ⟨unloaded, ends⟩ := run_exitCode unloadable around
  obtain ⟨left, ranUnloaded⟩ := Option.isSome_iff_exists.mp (ends (Or.inl isUnloadable))
  obtain ⟨unopened, endsToo⟩ := run_exitCode unopenable around
  obtain ⟨leftToo, ranUnopened⟩ :=
    Option.isSome_iff_exists.mp (endsToo (Or.inr (Or.inl isUnopenable)))
  exact ⟨whole, cut, cutToo, outcomes, ⟨finished, status, ran, same, result, noHandler, number⟩,
    ⟨left, ranUnloaded, (unloaded left ranUnloaded).1 cut⟩,
    leftToo, ranUnopened, (unopened leftToo ranUnopened).1 cutToo⟩

end Session
end BatchFetch
