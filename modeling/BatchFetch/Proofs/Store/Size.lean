import BatchFetch.Proofs.Store.LookUp
import Mathlib.Algebra.GroupWithZero.Nat
import Mathlib.Data.Set.Card

namespace BatchFetch

namespace Entries

variable {α : Type}

/-- What is put under a key takes the place of what was there. -/
theorem sum_insert (weight : α → Nat) (key : String) (value : α) {entries : List (String × α)}
    (sorted : Sorted entries) :
    ((insert key value entries).map fun entry => weight entry.2).sum +
        ((get? key entries).map weight).getD 0 =
      (entries.map fun entry => weight entry.2).sum + weight value := by
  induction entries with
  | nil => simp [insert, get?]
  | cons head rest ih =>
    obtain ⟨k, v⟩ := head
    have sortedRest := (List.pairwise_cons.1 sorted).2
    unfold insert
    split
    · rename_i before
      have absent : get? key ((k, v) :: rest) = none := by
        rw [get?, if_neg (String.ne_of_lt before), get?_rest_of_sorted sorted (String.lt_asymm before)]
      simp only [absent, List.map_cons, List.sum_cons, Option.map_none, Option.getD_none]
      omega
    · split
      · rename_i same
        simp only [get?, if_pos same, List.map_cons, List.sum_cons, Option.map_some, Option.getD_some]
        omega
      · rename_i different
        have further := ih sortedRest
        simp only [get?, if_neg different, List.map_cons, List.sum_cons]
        omega

end Entries

theorem Dict.size_insert {α : Type} (d : Dict α) (key : String) (value : α) :
    (d.insert key value).size + (if (d.get? key).isSome then 1 else 0) = d.size + 1 := by
  have counted := Entries.sum_insert (fun _ => 1) key value d.sorted
  simp only [List.map_const', List.sum_replicate_nat, Nat.mul_one] at counted
  rw [size, size, insert, get?, ← counted]
  cases Entries.get? key d.entries <;> rfl

namespace Store

theorem size_eq (store : Store) :
    store.size = (store.sections.entries.map fun entry => entry.2.size).sum := by
  rw [size, toList, List.length_flatMap]
  refine congrArg List.sum (List.map_congr_left fun entry _ => ?_)
  rw [List.length_map]
  rfl

theorem mem_toList_iff {store : Store} {setting : Setting} :
    setting ∈ store.toList ↔ store.get? setting.sectionName setting.key = some setting.value := by
  obtain ⟨sectionName, key, value⟩ := setting
  simp only [toList, List.mem_flatMap, List.mem_map, Prod.exists, Setting.mk.injEq, get?]
  constructor
  · rintro ⟨name, options, among, _, _, member, rfl, rfl, rfl⟩
    rw [Dict.mem_iff_get?.mp among]
    exact Dict.mem_iff_get?.mp member
  · intro found
    obtain ⟨options, among, member⟩ := Option.bind_eq_some_iff.mp found
    exact ⟨sectionName, options, Dict.mem_of_get? among, key, value, Dict.mem_of_get? member,
      rfl, rfl, rfl⟩

/-- No two stored values have the same place. -/
theorem nodup_places (store : Store) :
    (store.toList.map fun setting => (setting.sectionName, setting.key)).Nodup := by
  rw [toList, List.map_flatMap, List.nodup_flatMap]
  constructor
  · intro entry _
    have paired := entry.2.nodup_keys.map (Prod.mk_right_injective entry.1)
    rw [List.map_map] at paired ⊢
    exact paired
  · refine store.sections.sorted.imp fun less place first second => ?_
    simp only [List.map_map, List.mem_map, Function.comp_apply] at first second
    obtain ⟨_, _, rfl⟩ := first
    obtain ⟨_, _, equal⟩ := second
    exact String.ne_of_lt less (Prod.mk.inj equal).1.symm

theorem encard_places (store : Store) :
    {place : String × String | (store.get? place.1 place.2).isSome}.encard = store.size := by
  have listed : {place : String × String | (store.get? place.1 place.2).isSome} =
      (store.toList.map fun setting => (setting.sectionName, setting.key)).toFinset := by
    ext ⟨sectionName, key⟩
    simp only [Set.mem_ofPred_eq, Option.isSome_iff_exists, List.coe_toFinset, List.mem_map,
      Prod.mk.injEq]
    constructor
    · rintro ⟨value, found⟩
      exact ⟨⟨sectionName, key, value⟩, mem_toList_iff.mpr found, rfl, rfl⟩
    · rintro ⟨setting, member, rfl, rfl⟩
      exact ⟨setting.value, mem_toList_iff.mp member⟩
  rw [listed, Set.encard_coe_eq_coe_finsetCard, List.toFinset_card_of_nodup store.nodup_places,
    List.length_map]
  rfl

/-- A write adds a value just where there was none. -/
theorem size_set (store : Store) (setting : Setting) :
    (store.set setting).size +
        (if (store.get? setting.sectionName setting.key).isSome then 1 else 0) =
      store.size + 1 := by
  let options := (store.sections.get? setting.sectionName).getD {}
  have outer := Entries.sum_insert Dict.size setting.sectionName
    (options.insert setting.key setting.value) store.sections.sorted
  have inner := options.size_insert setting.key setting.value
  have former : ((store.sections.get? setting.sectionName).map Dict.size).getD 0 = options.size := by
    simp only [options]
    cases store.sections.get? setting.sectionName <;> rfl
  have here : options.get? setting.key = store.get? setting.sectionName setting.key := by
    simp only [options, get?]
    cases store.sections.get? setting.sectionName <;> rfl
  rw [← Dict.get?, former, ← size_eq] at outer
  rw [here] at inner
  have after : (store.set setting).size = ((Entries.insert setting.sectionName
      (options.insert setting.key setting.value) store.sections.entries).map
        fun entry => entry.2.size).sum := size_eq _
  rw [← after] at outer
  omega

/-- Writing settings adds at most one value for each of them and takes none away. -/
theorem size_setAll (store : Store) (settings : List Setting) :
    store.size ≤ (store.setAll settings).size ∧
      (store.setAll settings).size ≤ store.size + settings.length := by
  induction settings generalizing store with
  | nil => exact ⟨Nat.le_refl _, Nat.le_refl _⟩
  | cons setting rest ih =>
    have step : store.setAll (setting :: rest) = (store.set setting).setAll rest := rfl
    have first := store.size_set setting
    obtain ⟨lower, upper⟩ := ih (store.set setting)
    rw [step, List.length_cons]
    split at first <;> omega

end Store
end BatchFetch
