import BatchFetch.Proofs.Batch.LocalEdit
import BatchFetch.Proofs.Dispatch.Related

namespace BatchFetch

variable {σ : Type}

/-- How a job ends depends on its target and the store that it is shown, and on nothing else. -/
def JobFactory.Answers (factory : JobFactory σ) (answer : String → Store → JobOutcome) : Prop :=
  ∀ target shown state, (factory.run target shown state).1 = answer target shown

namespace Journal

/-- The targets ended as the answers to the calls say. -/
def Follows (journal : Journal) (answer : String → Store → JobOutcome) : Prop :=
  journal.outcomes = journal.calls.map fun call => answer call.1 call.2

/-- The target at a place was started and was fatal. -/
def FatalAt (journal : Journal) (k : Nat) : Prop :=
  ∃ error, journal.outcomes[k]? = some (.fatal error)

end Journal

/-- The call of the factory for the item at a place of a batch. -/
def Item.call? (initial : Store) (items : List Item) (k : Nat) : Option (String × Store) :=
  items[k]?.map fun item => (item.value, initial.setAll
    ((items.take (k + 1)).flatMap Item.globalSettings ++ item.localSettings))

theorem Journal.Follows.not_fatalAt {journal : Journal} {answer : String → Store → JobOutcome}
    (follows : journal.Follows answer) (calm : ∀ target shown error, answer target shown ≠ .fatal error)
    (k : Nat) : ¬ journal.FatalAt k := by
  rintro ⟨error, fatal⟩
  rw [follows, List.getElem?_map, Option.map_eq_some_iff] at fatal
  obtain ⟨call, _, answered⟩ := fatal
  exact calm call.1 call.2 error answered

theorem Workshop.follows_of_answers {factory : JobFactory σ}
    (record : Option (String → σ → Except IoError Unit × σ))
    {answer : String → Store → JobOutcome} (answers : factory.Answers answer) (items : List Item)
    (initial : Store) (state : σ) :
    ((factory.observedWorkshop record).dispatch items initial (state, {})).state.2.Follows
      answer := by
  refine dispatch_keeps (P := fun watched : Observed σ => watched.2.Follows answer) ?run ?record
    items initial rfl
  case run =>
    intro watched before target shown
    show Journal.Follows (factory.observed.run target shown (watched.1, watched.2)).2.2.2 answer
    rw [factory.run_observed]
    simp only [Journal.Follows, Journal.call, Journal.ended, List.map_append, List.map_cons,
      List.map_nil]
    rw [answers, before]
  case record =>
    intro watched before target
    show Journal.Follows
      ((factory.observedWorkshop record).recordUnsupported target (watched.1, watched.2)).2.2 answer
    rw [recordUnsupported_observed]
    simp only
    split
    · exact before
    · exact before

namespace Journal.Agrees

variable {journal : Journal} {records : Bool} {status : ExitStatus} {initial store : Store}
  {items : List Item} {result : Except DispatchError ExitStatus}

theorem length_le (agrees : journal.Agrees records status initial items store result) :
    journal.outcomes.length ≤ items.length := by
  rcases agrees.ending with ⟨all, _⟩ | ⟨before, error, item, split, _, here, _⟩
  · exact Nat.le_of_eq all
  · rw [split, List.length_append, List.length_singleton]
    exact (List.getElem?_eq_some_iff.mp here).1

theorem call_of_lt (agrees : journal.Agrees records status initial items store result) {j : Nat}
    (started : j < journal.outcomes.length) : journal.calls[j]? = Item.call? initial items j := by
  rw [agrees.calls, List.getElem?_mapIdx, List.getElem?_take_of_lt started, Item.call?]

theorem call_of_le (agrees : journal.Agrees records status initial items store result) {j : Nat}
    (beyond : journal.outcomes.length ≤ j) : journal.calls[j]? = none := by
  rw [agrees.calls, List.getElem?_mapIdx,
    List.getElem?_eq_none (Nat.le_trans (List.length_take_le _ _) beyond), Option.map_none]

/-- Only the last target that was started can be fatal. -/
theorem not_fatalAt (agrees : journal.Agrees records status initial items store result) {j : Nat}
    (goesOn : j + 1 < journal.outcomes.length) : ¬ journal.FatalAt j := by
  rintro ⟨error, fatal⟩
  rcases agrees.ending with ⟨_, calm, _⟩ | ⟨before, last, item, split, calm, _, _⟩
  · exact calm error (List.mem_of_getElem? fatal)
  · rw [split, List.length_append, List.length_singleton] at goesOn
    rw [split, List.getElem?_append_left (by omega)] at fatal
    exact calm error (List.mem_of_getElem? fatal)

/-- A batch that stops early stops at a fatal target. -/
theorem fatalAt_of_lt (agrees : journal.Agrees records status initial items store result)
    (early : journal.outcomes.length < items.length) :
    ∃ k, journal.outcomes.length = k + 1 ∧ journal.FatalAt k := by
  rcases agrees.ending with ⟨all, _⟩ | ⟨before, error, item, split, _, _, _⟩
  · omega
  · refine ⟨before.length, by rw [split, List.length_append, List.length_singleton], error, ?_⟩
    rw [split, List.getElem?_append_right (Nat.le_refl _), Nat.sub_self, List.getElem?_cons_zero]

end Journal.Agrees

/-- Two calls for one target, whose stores may differ in some options only. -/
def SeesAlikeBut (named : String → String → Prop) (call other : String × Store) : Prop :=
  call.1 = other.1 ∧ ∀ sectionName key, ¬ named sectionName key →
    call.2.get? sectionName key = other.2.get? sectionName key

namespace Item.AlikeBut

variable {k : Nat} {named : String → String → Prop} {items others : List Item}

theorem symm (alike : AlikeBut k named items others) : AlikeBut k named others items where
  outer := alike.outer.symm
  elsewhere j other := (alike.elsewhere j other).symm
  here atOther atItem sectionName key unnamed :=
    (alike.here atItem atOther sectionName key unnamed).symm

theorem length_eq (alike : AlikeBut k named items others) : others.length = items.length := by
  simpa only [List.length_map] using congrArg List.length alike.outer

theorem globalSettings_eq (alike : AlikeBut k named items others) (n : Nat) :
    (others.take n).flatMap Item.globalSettings = (items.take n).flatMap Item.globalSettings := by
  have same := congrArg (fun outer => (outer.take n).flatMap fun pair =>
    pair.2.map Directive.toSetting) alike.outer
  unfold Item.globalSettings
  simpa only [← List.map_take, List.flatMap_map] using same

theorem call?_elsewhere (alike : AlikeBut k named items others) (initial : Store) {j : Nat}
    (other : j ≠ k) : Item.call? initial others j = Item.call? initial items j := by
  rw [Item.call?, Item.call?, alike.elsewhere j other, alike.globalSettings_eq]

theorem call?_here (alike : AlikeBut k named items others) (initial : Store) :
    Option.Rel (SeesAlikeBut named) (Item.call? initial items k) (Item.call? initial others k) := by
  have outer := congrArg (fun outer => outer[k]?) alike.outer
  simp only [List.getElem?_map] at outer
  rw [Item.call?, Item.call?, alike.globalSettings_eq]
  cases atItem : items[k]? with
  | none =>
    rw [atItem, Option.map_none, Option.map_eq_none_iff] at outer
    rw [outer]
    exact .none
  | some item =>
    rw [atItem, Option.map_some, Option.map_eq_some_iff] at outer
    obtain ⟨other, atOther, same⟩ := outer
    rw [atOther]
    have value : item.value = other.value := (congrArg Prod.fst same).symm
    refine .some ⟨value, fun sectionName key unnamed => ?_⟩
    rw [Store.get?_setAll, Store.get?_setAll, Setting.last?_append, Setting.last?_append,
      alike.here atItem atOther sectionName key unnamed]

end Item.AlikeBut

section TwoRuns

variable {k : Nat} {named : String → String → Prop} {items others : List Item}
  {answer : String → Store → JobOutcome} {initial : Store}
  {journal journal' : Journal} {records records' : Bool} {status status' : ExitStatus}
  {store store' : Store} {result result' : Except DispatchError ExitStatus}

theorem Journal.Follows.fatalAt_congr (follows : journal.Follows answer)
    (follows' : journal'.Follows answer) {j : Nat} (same : journal.calls[j]? = journal'.calls[j]?) :
    journal.FatalAt j ↔ journal'.FatalAt j := by
  rw [Journal.FatalAt, Journal.FatalAt, follows, follows', List.getElem?_map, List.getElem?_map, same]

/-- Of two batches that are alike but for one item, one can end earlier only at that item. -/
theorem Journal.Agrees.ends_at (agrees : journal.Agrees records status initial items store result)
    (agrees' : journal'.Agrees records' status' initial others store' result')
    (alike : Item.AlikeBut k named items others) (follows : journal.Follows answer)
    (follows' : journal'.Follows answer)
    (earlier : journal'.outcomes.length < journal.outcomes.length) :
    journal'.outcomes.length = k + 1 ∧ journal'.FatalAt k ∧ ¬ journal.FatalAt k := by
  have length := alike.length_eq
  have bound := agrees.length_le
  obtain ⟨last, ended, fatal⟩ := agrees'.fatalAt_of_lt (by omega)
  have goesOn : ¬ journal.FatalAt last := agrees.not_fatalAt (by omega)
  by_cases here : last = k
  · subst here
    exact ⟨ended, fatal, goesOn⟩
  · have same : journal.calls[last]? = journal'.calls[last]? := by
      rw [agrees.call_of_lt (by omega), agrees'.call_of_lt (by omega),
        alike.call?_elsewhere initial here]
    exact absurd ((follows.fatalAt_congr follows' same).mpr fatal) goesOn

variable (agrees : journal.Agrees records status initial items store result)
  (agrees' : journal'.Agrees records' status' initial others store' result')
  (alike : Item.AlikeBut k named items others) (follows : journal.Follows answer)
  (follows' : journal'.Follows answer)
include agrees agrees' alike follows follows'

theorem Journal.Agrees.started_iff :
    k < journal.outcomes.length ↔ k < journal'.outcomes.length := by
  rcases Nat.lt_trichotomy journal.outcomes.length journal'.outcomes.length with less | same | more
  · have ends := agrees'.ends_at agrees alike.symm follows' follows less
    omega
  · rw [same]
  · have ends := agrees.ends_at agrees' alike follows follows' more
    omega

/-- If the item is fatal in both batches or in neither, they start the same targets. -/
theorem Journal.Agrees.length_eq (fatal : journal.FatalAt k ↔ journal'.FatalAt k) :
    journal.outcomes.length = journal'.outcomes.length := by
  rcases Nat.lt_trichotomy journal.outcomes.length journal'.outcomes.length with less | same | more
  · obtain ⟨_, here, there⟩ := agrees'.ends_at agrees alike.symm follows' follows less
    exact absurd (fatal.mp here) there
  · exact same
  · obtain ⟨_, here, there⟩ := agrees.ends_at agrees' alike follows follows' more
    exact absurd (fatal.mpr here) there

theorem Journal.Agrees.calls_here :
    Option.Rel (SeesAlikeBut named) journal.calls[k]? journal'.calls[k]? := by
  have started := agrees.started_iff agrees' alike follows follows'
  by_cases here : k < journal.outcomes.length
  · rw [agrees.call_of_lt here, agrees'.call_of_lt (started.mp here)]
    exact alike.call?_here initial
  · rw [agrees.call_of_le (Nat.not_lt.mp here),
      agrees'.call_of_le (Nat.not_lt.mp fun there => here (started.mpr there))]
    exact .none

theorem Journal.Agrees.calls_elsewhere (fatal : journal.FatalAt k ↔ journal'.FatalAt k) {j : Nat}
    (other : j ≠ k) : journal'.calls[j]? = journal.calls[j]? := by
  have length := agrees.length_eq agrees' alike follows follows' fatal
  by_cases started : j < journal.outcomes.length
  · rw [agrees.call_of_lt started, agrees'.call_of_lt (length ▸ started),
      alike.call?_elsewhere initial other]
  · rw [agrees.call_of_le (Nat.not_lt.mp started),
      agrees'.call_of_le (Nat.not_lt.mp (length ▸ started))]

theorem Journal.Agrees.store_eq (fatal : journal.FatalAt k ↔ journal'.FatalAt k) :
    store' = store := by
  rw [agrees.store, agrees'.store, agrees.length_eq agrees' alike follows follows' fatal,
    alike.globalSettings_eq]

end TwoRuns

namespace Workshop

/-- When the local directive lines above a target are edited, the job of that target is created for
the same target and sees the same store but for the options that these lines name. If the target is
fatal in both batches or in neither, all other jobs are created for the same targets and see the same
stores, and the same store is left. Below the last target such an edit changes nothing at all. -/
theorem dispatch_of_local_edit (factory : JobFactory σ)
    (record : Option (String → σ → Except IoError Unit × σ))
    {answer : String → Store → JobOutcome} (answers : factory.Answers answer) (edit : LocalEdit)
    {initial : Store} (compact : initial.Compact) (state : σ) :
    let run (text : List String) :=
      (factory.observedWorkshop record).dispatch (Item.ofLines text) initial (state, {})
    let old := run edit.oldText
    let new := run edit.newText
    Option.Rel (SeesAlikeBut edit.Names) old.state.2.calls[edit.place]?
        new.state.2.calls[edit.place]? ∧
      ((old.state.2.FatalAt edit.place ↔ new.state.2.FatalAt edit.place) →
        (∀ j, j ≠ edit.place → new.state.2.calls[j]? = old.state.2.calls[j]?) ∧
          new.store = old.store) ∧
      ((∀ line ∈ edit.after, ¬ IsTarget line) → new = old) := by
  intro run old new
  have agrees := (dispatch_observed factory record (Item.ofLines edit.oldText) compact state).2
  have agrees' := (dispatch_observed factory record (Item.ofLines edit.newText) compact state).2
  have follows := follows_of_answers record answers (Item.ofLines edit.oldText) initial state
  have follows' := follows_of_answers record answers (Item.ofLines edit.newText) initial state
  have alike := edit.items_alikeBut
  refine ⟨agrees.calls_here agrees' alike follows follows', fun fatal => ⟨fun j other => ?_, ?_⟩,
    fun nothingBelow => ?_⟩
  · exact agrees.calls_elsewhere agrees' alike follows follows' fatal other
  · exact agrees.store_eq agrees' alike follows follows' fatal
  · show run edit.newText = run edit.oldText
    simp only [run, edit.items_eq_of_quiet nothingBelow]

/-- A factory that counts its jobs and has none for one target. -/
def allButB : JobFactory Nat where
  create target _ made :=
    if target = "https://b" then (.error .notFound, [], made)
    else (.ok fun made => (.completed .http, [], made + 1), [], made)

theorem dispatch_of_local_edit_moved :
    let edit : LocalEdit :=
      { before := ["-G retries=2", "https://a"]
        old := ["-skip=true", "-G skip=false"]
        new := ["-G skip=false", "-nope", "-plugin:opt=1"]
        after := ["https://b", "https://c"]
        quiet := by decide
        kept := by decide }
    let initial := Store.empty.set ⟨"plugin", "opt", .null⟩
    let answer (target : String) (_ : Store) : JobOutcome :=
      if target = "https://b" then .notFound else .completed .http
    let run (text : List String) :=
      (allButB.observedWorkshop none).dispatch (Item.ofLines text) initial (0, {})
    initial.Compact ∧ allButB.Answers answer ∧ edit.place = 1 ∧
      Option.Rel (SeesAlikeBut edit.Names) (run edit.oldText).state.2.calls[1]?
        (run edit.newText).state.2.calls[1]? ∧
      (∀ j, j ≠ 1 →
        (run edit.newText).state.2.calls[j]? = (run edit.oldText).state.2.calls[j]?) ∧
      (run edit.newText).store = (run edit.oldText).store := by
  intro edit initial answer run
  have compact : initial.Compact := by decide
  have answers : allButB.Answers answer := by
    intro target shown state
    by_cases isB : target = "https://b" <;>
      simp [JobFactory.run, allButB, answer, isB, JobFailure.outcome]
  have calm (text : List String) (k : Nat) : ¬ (run text).state.2.FatalAt k :=
    (follows_of_answers none answers (Item.ofLines text) initial 0).not_fatalAt
      (fun target _ error => by simp only [answer]; split <;> simp) k
  have place : edit.place = 1 := by decide
  obtain ⟨here, elsewhere, _⟩ := dispatch_of_local_edit allButB none answers edit compact 0
  obtain ⟨calls, store⟩ :=
    elsewhere ⟨fun fatal => absurd fatal (calm _ _), fun fatal => absurd fatal (calm _ _)⟩
  rw [place] at here calls
  exact ⟨compact, answers, place, here, calls, store⟩

end Workshop
end BatchFetch
