import BatchFetch.Job.Kind
import BatchFetch.Proofs.Dispatch.Unsupported
import BatchFetch.Proofs.Job.Targets
import BatchFetch.Proofs.Store.Overlay
import Mathlib.Data.List.ProdSigma

namespace BatchFetch

/-- Two stores that have the same values at some places, each of which is a section and a key. -/
def Store.AgreeOn (places : List (String × String)) (a b : Store) : Prop :=
  ∀ place ∈ places, a.get? place.1 place.2 = b.get? place.1 place.2

instance (places : List (String × String)) (a b : Store) : Decidable (a.AgreeOn places b) :=
  inferInstanceAs (Decidable (∀ place ∈ places, _))

namespace Store.AgreeOn

variable {places : List (String × String)} {a b : Store}

theorem setAll (agree : a.AgreeOn places b) (settings : List Setting) :
    (a.setAll settings).AgreeOn places (b.setAll settings) := by
  intro place member
  rw [get?_setAll, get?_setAll, agree place member]

theorem overlay (agree : a.AgreeOn places b) (settings : List Setting) :
    (a.overlay settings).1.AgreeOn places (b.overlay settings).1 := by
  rw [overlay_store, overlay_store]
  exact agree.setAll settings

theorem restore_overlay (agree : a.AgreeOn places b) (settings : List Setting) :
    ((a.overlay settings).1.restore (a.overlay settings).2).AgreeOn places
      ((b.overlay settings).1.restore (b.overlay settings).2) := by
  intro place member
  rw [get?_restore_overlay, get?_restore_overlay, agree place member]

/-- A look-up is told by the levels of its section and the global one. -/
theorem interpolate? {sectionName key : String} (agree : a.AgreeOn places b)
    (looked : ∀ level ∈ globalSection :: levels sectionName, (level, key) ∈ places) :
    a.interpolate? sectionName key = b.interpolate? sectionName key := by
  have outermost : a.getGlobal? key = b.getGlobal? key :=
    agree _ (looked globalSection List.mem_cons_self)
  rw [Store.interpolate?_eq, Store.interpolate?_eq, outermost]
  split
  · rfl
  · refine List.foldl_ext _ _ _ fun found level member => ?_
    rw [agree (level, key) (looked level (List.mem_cons_of_mem _ member))]

/-- What the job of an item is shown agrees, and so does what the item leaves. -/
theorem exists_runItem (agree : a.AgreeOn places b) (item : Item) :
    ∃ shown shown' left left' : Store, shown.AgreeOn places shown' ∧ left.AgreeOn places left' ∧
      ∀ {σ : Type} (shop : Workshop σ) (state : σ),
        shop.runItem item a state = (shop.run item.value shown state, left) ∧
        shop.runItem item b state = (shop.run item.value shown' state, left') := by
  cases item with
  | plain target => exact ⟨a, b, a, b, agree, agree, fun _ _ => ⟨rfl, rfl⟩⟩
  | enriched target globals locals =>
    have written := agree.setAll (globals.map Directive.toSetting)
    exact ⟨_, _, _, _, written.overlay (locals.map Directive.toSetting),
      written.restore_overlay (locals.map Directive.toSetting), fun _ _ => ⟨rfl, rfl⟩⟩

end Store.AgreeOn

variable {σ : Type} {places : List (String × String)}

/-- Two dispatches that differ at most in what their stores hold elsewhere. -/
structure Dispatched.AgreeOn (places : List (String × String)) (first second : Dispatched σ) :
    Prop where
  result : first.result = second.result
  state : first.state = second.state
  events : first.events = second.events
  store : first.store.AgreeOn places second.store

/-- The jobs of a workshop look at these places of the store at most. -/
def Workshop.Reads (places : List (String × String)) (shop : Workshop σ) : Prop :=
  ∀ a b : Store, a.AgreeOn places b → ∀ target state, shop.run target a state = shop.run target b state

/-- The jobs of a factory look at these places of the store at most. -/
def JobFactory.Reads (places : List (String × String)) (factory : JobFactory σ) : Prop :=
  ∀ a b : Store, a.AgreeOn places b →
    ∀ target state, factory.create target a state = factory.create target b state

namespace JobFactory.Reads

variable {factory : JobFactory σ}

theorem beside (reads : factory.Reads places) (τ : Type) : (factory.beside τ).Reads places := by
  intro a b agree target both
  simp only [JobFactory.beside, reads a b agree target both.1]

theorem workshop (reads : factory.Reads places)
    (record : Option (String → σ → Except IoError Unit × σ)) :
    (factory.workshop record).Reads places := by
  intro a b agree target state
  simp only [JobFactory.workshop, JobFactory.run, reads a b agree target state]

end JobFactory.Reads

namespace Workshop.Reads

variable {shop : Workshop σ} {a b : Store}

theorem dispatchOne (reads : shop.Reads places) (agree : a.AgreeOn places b) (item : Item)
    (state : σ) :
    Dispatched.AgreeOn places (shop.dispatchOne item a state) (shop.dispatchOne item b state) := by
  obtain ⟨shown, shown', left, left', agreeShown, agreeLeft, ran⟩ := agree.exists_runItem item
  obtain ⟨ranA, ranB⟩ := ran shop state
  have same := reads _ _ agreeShown item.value state
  simp only [Workshop.dispatchOne, ranA, ranB, same]
  exact ⟨rfl, rfl, rfl, agreeLeft⟩

theorem dispatchFrom (reads : shop.Reads places) (agree : a.AgreeOn places b) (items : List Item)
    (status : ExitStatus) (events : List Event) (state : σ) :
    Dispatched.AgreeOn places (shop.dispatchFrom status events items a state)
      (shop.dispatchFrom status events items b state) := by
  induction items generalizing status events a b state with
  | nil => exact ⟨rfl, rfl, rfl, agree⟩
  | cons item rest ih =>
    obtain ⟨result, after, seen, left⟩ := reads.dispatchOne agree item state
    simp only [Workshop.dispatchFrom, result, after, seen]
    cases (shop.dispatchOne item b state).result with
    | error e => exact ⟨rfl, rfl, rfl, left⟩
    | ok more => exact ih left ..

theorem dispatch (reads : shop.Reads places) (agree : a.AgreeOn places b) (items : List Item)
    (state : σ) :
    Dispatched.AgreeOn places (shop.dispatch items a state) (shop.dispatch items b state) :=
  reads.dispatchFrom agree items .success [] state

end Workshop.Reads

/-- The places at which the built-in handlers look for the options of a download. -/
def DownloadSettings.optionPlaces : List (String × String) :=
  [globalSection, "extractor", "extractor.playlist", "extractor.direct"].product
    ["base-directory", "filename", "skip"]

theorem DownloadSettings.ofStore_congr {a b : Store} (agree : a.AgreeOn optionPlaces b)
    {handler : Handler} (builtIn : handler = .playlist ∨ handler = .direct) :
    ofStore a handler.name = ofStore b handler.name := by
  have look {key : String} (named : key ∈ ["base-directory", "filename", "skip"]) :
      a.interpolate? (handlerSection handler.name) key =
        b.interpolate? (handlerSection handler.name) key := by
    refine agree.interpolate? fun level member => List.pair_mem_product.mpr ⟨?_, named⟩
    have every : ∀ level ∈ globalSection :: Store.levels (handlerSection handler.name),
        level ∈ [globalSection, "extractor", "extractor.playlist", "extractor.direct"] := by
      rcases builtIn with rfl | rfl <;> decide +kernel
    exact every level member
  unfold ofStore
  simp only [look (List.mem_cons_self), look (List.mem_cons_of_mem _ List.mem_cons_self),
    look (List.mem_cons_of_mem _ (List.mem_cons_of_mem _ List.mem_cons_self))]

/-- A download of the built-in handlers reads its options and nothing else of the store; a listing
reads nothing. -/
theorem JobKind.factory_reads (kind : JobKind) {registry : Registry} (builtIn : registry.BuiltIn)
    (get : Url → Exchange) : (kind.factory registry get).Reads DownloadSettings.optionPlaces := by
  intro a b agree target world
  unfold factory
  simp only
  cases found : registry.findFor? target with
  | none => rfl
  | some claimed =>
    obtain ⟨url, handler⟩ := claimed
    have builtInHandler := builtIn handler
      (List.mem_of_find?_eq_some (Registry.findFor?_eq_some found).2)
    cases kind with
    | list depth => rfl
    | download => simp only [job, DownloadSettings.ofStore_congr agree builtInHandler]

end BatchFetch
