import BatchFetch.Proofs.Dispatch.Journal
import BatchFetch.Proofs.Status
import Mathlib.Data.List.Forall2

namespace BatchFetch

variable {σ : Type}

/-- How a batch that starts from a status ends, told by the outcomes of the items that were
started. -/
inductive Ended (status : ExitStatus) (items : List Item) :
    List JobOutcome → Except DispatchError ExitStatus → Prop where
  | all {outcomes : List JobOutcome} (length : outcomes.length = items.length)
      (calm : ∀ error, .fatal error ∉ outcomes) :
      Ended status items outcomes (.ok ((outcomes.map JobOutcome.status).foldl (· ||| ·) status))
  | cut {before : List JobOutcome} {error : ErrorChain} {item : Item}
      (calm : ∀ error, .fatal error ∉ before) (here : items[before.length]? = some item) :
      Ended status items (before ++ [.fatal error]) (.error ⟨item.value, error⟩)

theorem JobOutcome.of_verdict_error {target : String} {outcome : JobOutcome} {e : DispatchError}
    (verdict : outcome.verdict target = .error e) :
    ∃ error, outcome = .fatal error ∧ e = ⟨target, error⟩ := by
  cases outcome <;> cases verdict
  exact ⟨_, rfl, rfl⟩

theorem JobOutcome.of_verdict_ok {target : String} {outcome : JobOutcome} {status : ExitStatus}
    (verdict : outcome.verdict target = .ok status) :
    (∀ error, outcome ≠ .fatal error) ∧ status = outcome.status := by
  cases outcome <;> cases verdict <;> exact ⟨by simp, rfl⟩

namespace Ended

theorem fatal (status : ExitStatus) (item : Item) (rest : List Item) (error : ErrorChain) :
    Ended status (item :: rest) [.fatal error] (.error ⟨item.value, error⟩) :=
  @cut status (item :: rest) [] error item (by simp) rfl

theorem cons {status : ExitStatus} {rest : List Item} {outcomes : List JobOutcome}
    {result : Except DispatchError ExitStatus} {outcome : JobOutcome} (item : Item)
    (goesOn : ∀ error, outcome ≠ .fatal error)
    (later : Ended (status ||| outcome.status) rest outcomes result) :
    Ended status (item :: rest) (outcome :: outcomes) result := by
  have calm {more : List JobOutcome} (calm : ∀ error, .fatal error ∉ more) :
      ∀ error, .fatal error ∉ outcome :: more := by
    intro error member
    rcases List.mem_cons.mp member with now | after
    · exact goesOn error now.symm
    · exact calm error after
  cases later with
  | all length calmLater =>
    refine all ?_ (calm calmLater)
    rw [List.length_cons, List.length_cons, length]
  | cut calmLater here => exact cut (calm calmLater) here

theorem length_le {status : ExitStatus} {items : List Item} {outcomes : List JobOutcome}
    {result : Except DispatchError ExitStatus} (ended : Ended status items outcomes result) :
    outcomes.length ≤ items.length := by
  cases ended with
  | all length calm => exact Nat.le_of_eq length
  | @cut before _ _ calm here =>
    have inside : before.length < items.length := (List.getElem?_eq_some_iff.mp here).1
    rw [List.length_append, List.length_singleton]
    exact inside

/-- A batch that starts without bits has at its end those of its outcomes. -/
theorem status_eq {items : List Item} {outcomes : List JobOutcome} {status : ExitStatus}
    (ended : Ended .success items outcomes (.ok status)) :
    status = .all (outcomes.map JobOutcome.status) := by
  cases ended with
  | all => rw [ExitStatus.foldl_union, ExitStatus.success_union]

theorem length_eq {items : List Item} {outcomes : List JobOutcome} {first status : ExitStatus}
    (ended : Ended first items outcomes (.ok status)) : outcomes.length = items.length := by
  cases ended with
  | all length => exact length

theorem error_iff {status : ExitStatus} {items : List Item} {outcomes : List JobOutcome}
    {result : Except DispatchError ExitStatus} (ended : Ended status items outcomes result) :
    (∃ e, result = .error e) ↔ ∃ error, .fatal error ∈ outcomes := by
  cases ended with
  | all _ calm => simp [calm]
  | cut => simp

end Ended

namespace Workshop

/-- What a job is shown and what it leaves in the store do not depend on who runs it. -/
theorem exists_runItem (item : Item) (store : Store) :
    ∃ shown left, ∀ {σ : Type} (shop : Workshop σ) (state : σ),
      shop.runItem item store state = (shop.run item.value shown state, left) := by
  cases item with
  | plain target => exact ⟨store, store, fun _ _ => rfl⟩
  | enriched target globals locals => exact ⟨_, _, fun _ _ => rfl⟩

theorem settle_state (shop : Workshop σ) (target : String) (outcome : JobOutcome) (state : σ) :
    (shop.settle target outcome state).2.2 =
      if outcome = .notFound then (shop.recordUnsupported target state).2 else state := by
  cases outcome <;> rfl

variable (factory : JobFactory σ) (record : Option (String → σ → Except IoError Unit × σ))

/-- One item: its target is called, and how its job ends is noted and settled. -/
theorem dispatchOne_noted (item : Item) (store : Store) (state : σ) (journal : Journal) :
    let one := (factory.observedWorkshop record).dispatchOne item store (state, journal)
    ∃ shown, let ran := factory.run item.value shown state
      one.result = ran.1.verdict item.value ∧
      one.state.1 = ((factory.workshop record).settle item.value ran.1 ran.2.2).2.2 ∧
      one.state.2.calls = journal.calls ++ [(item.value, shown)] ∧
      one.state.2.outcomes = journal.outcomes ++ [ran.1] := by
  intro one
  obtain ⟨shown, left, ran⟩ := exists_runItem item store
  have run : (factory.observedWorkshop record).run item.value shown (state, journal) = _ :=
    factory.run_observed item.value shown state journal
  have one_eq : one = (factory.observedWorkshop record).dispatchOne item store (state, journal) := rfl
  simp only [dispatchOne, ran, run, settle_observed] at one_eq
  refine ⟨shown, ?_, ?_, ?_⟩
  · rw [one_eq]
    exact settle_verdict ..
  · rw [one_eq]
  · rw [one_eq]
    simp only
    split <;> exact ⟨rfl, rfl⟩

variable {P : String → JobOutcome → Prop} {L : σ → Prop}

/-- What each item leaves alive is alive at the end of the batch, if none is fatal before. -/
theorem dispatchFrom_lives {shop : Workshop σ} {items : List Item}
    (runs : ∀ item ∈ items, ∀ shown state, L state → L (shop.run item.value shown state).2.2)
    (keeps : ∀ target state, L state → L (shop.recordUnsupported target state).2)
    (status : ExitStatus) (events : List Event) (store : Store) {state : σ} (alive : L state) :
    L (shop.dispatchFrom status events items store state).state := by
  induction items generalizing status events store state with
  | nil => exact alive
  | cons item rest ih =>
    have one : L (shop.dispatchOne item store state).state := by
      obtain ⟨shown, left, ran⟩ := exists_runItem item store
      have ran := ran shop state
      have now := runs item List.mem_cons_self shown state alive
      simp only [dispatchOne, ran, settle_state]
      split
      · exact keeps _ _ now
      · exact now
    simp only [dispatchFrom]
    split
    · exact one
    · exact ih (fun later member => runs later (List.mem_cons_of_mem _ member)) _ _ _ one

/-- A whole batch: the items that were started are called in order, each with its outcome. What all
outcomes from a state that is alive have in common, these have too, if a job that leaves none is
fatal. -/
theorem dispatchFrom_noted
    (answers : ∀ target shown state, L state →
      let ran := factory.run target shown state
      (L ran.2.2 ∧ P target ran.1) ∨ ∃ error, ran.1 = .fatal error)
    (keeps : ∀ target state, L state →
      L ((factory.workshop record).recordUnsupported target state).2)
    (status : ExitStatus) (events : List Event) (items : List Item) (store : Store) {state : σ}
    (alive : L state) (journal : Journal) :
    let done :=
      (factory.observedWorkshop record).dispatchFrom status events items store (state, journal)
    ∃ outcomes, done.state.2.outcomes = journal.outcomes ++ outcomes ∧
      done.state.2.calls.map Prod.fst =
        journal.calls.map Prod.fst ++ (items.take outcomes.length).map Item.value ∧
      Ended status items outcomes done.result ∧
      List.Forall₂ (fun target outcome => P target outcome ∨ ∃ error, outcome = .fatal error)
        ((items.take outcomes.length).map Item.value) outcomes := by
  -- What is noted for the items so far stays a prefix, so the journal is generalised with the state.
  induction items generalizing status events store state journal with
  | nil => exact ⟨[], by simp [dispatchFrom], by simp [dispatchFrom], .all rfl (by simp), .nil⟩
  | cons item rest ih =>
    obtain ⟨shown, result, left, calls, outcomes⟩ :=
      dispatchOne_noted factory record item store state journal
    have answer := answers item.value shown state alive
    generalize factory.run item.value shown state = ran at result left outcomes answer
    obtain ⟨outcome, _, after⟩ := ran
    simp only at result left outcomes answer
    simp only [dispatchFrom, result]
    cases verdict : outcome.verdict item.value with
    | error e =>
      obtain ⟨error, rfl, rfl⟩ := JobOutcome.of_verdict_error verdict
      exact ⟨[.fatal error], outcomes, by simp [calls], .fatal status item rest error,
        .cons (Or.inr ⟨error, rfl⟩) .nil⟩
    | ok more =>
      obtain ⟨calm, rfl⟩ := JobOutcome.of_verdict_ok verdict
      obtain ⟨aliveToo, holds⟩ := answer.resolve_right (not_exists.mpr calm)
      have settled : L ((factory.workshop record).settle item.value outcome after).2.2 := by
        rw [settle_state]
        split
        · exact keeps _ _ aliveToo
        · exact aliveToo
      rcases ended : (factory.observedWorkshop record).dispatchOne item store (state, journal)
        with ⟨_, behind, ⟨next, notes⟩, seen⟩
      rw [ended] at left calls outcomes
      obtain ⟨later, allOutcomes, allCalls, ending, all⟩ :=
        ih (status ||| outcome.status) (events ++ seen) behind (left ▸ settled) notes
      refine ⟨outcome :: later, ?_, ?_, .cons item calm ending, .cons (Or.inl holds) all⟩
      · rw [allOutcomes, outcomes, List.append_assoc, List.singleton_append]
      · rw [allCalls, calls]
        simp

theorem dispatch_noted
    (answers : ∀ target shown state, L state →
      let ran := factory.run target shown state
      (L ran.2.2 ∧ P target ran.1) ∨ ∃ error, ran.1 = .fatal error)
    (keeps : ∀ target state, L state →
      L ((factory.workshop record).recordUnsupported target state).2)
    (items : List Item) (store : Store) {state : σ} (alive : L state) :
    let done := (factory.observedWorkshop record).dispatch items store (state, {})
    let outcomes := done.state.2.outcomes
    done.state.2.calls.map Prod.fst = (items.take outcomes.length).map Item.value ∧
      Ended .success items outcomes done.result ∧
      List.Forall₂ (fun target outcome => P target outcome ∨ ∃ error, outcome = .fatal error)
        ((items.take outcomes.length).map Item.value) outcomes := by
  intro done outcomes
  obtain ⟨others, same, calls, ended, all⟩ :=
    dispatchFrom_noted factory record answers keeps .success [] items store alive {}
  rw [List.nil_append] at same
  obtain rfl : outcomes = others := same
  exact ⟨calls, ended, all⟩

end Workshop
end BatchFetch
