import Mathlib.Data.List.Basic

namespace BatchFetch

variable {ε α β : Type}

theorem ok_of_map {f : α → β} {result : Except ε α} {value : β} (mapped : result.map f = .ok value) :
    ∃ x, result = .ok x ∧ f x = value := by
  cases result with
  | error => cases mapped
  | ok x => exact ⟨x, rfl, Except.ok.inj mapped⟩

theorem ok_of_bind {f : α → Except ε β} {result : Except ε α} {value : β}
    (bound : result >>= f = .ok value) : ∃ x, result = .ok x ∧ f x = .ok value := by
  cases result with
  | error => cases bound
  | ok x => exact ⟨x, rfl, bound⟩

theorem toOption_bind (f : α → Except ε β) (result : Except ε α) :
    (result.bind f).toOption = result.toOption.bind fun value => (f value).toOption := by
  cases result <;> rfl

theorem toOption_eq_none_iff {result : Except ε α} :
    result.toOption = none ↔ ∃ e, result = .error e := by
  cases result <;> simp [Except.toOption]

theorem toOption_eq_some_iff {result : Except ε α} {value : α} :
    result.toOption = some value ↔ result = .ok value := by
  cases result <;> simp [Except.toOption]

end BatchFetch
