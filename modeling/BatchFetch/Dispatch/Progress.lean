import BatchFetch.Dispatch.Basic
import BatchFetch.Files.Stream

namespace BatchFetch

/-- The template that is used unless the configuration names another one. -/
def defaultProgressTemplate : String := "[\x7bcurrent\x7d/\x7btotal\x7d] \x7burl\x7d"

/-- Fill in a template: the position, then the total, then the target. -/
def renderProgress (template : String) (current total : Nat) (url : String) : String :=
  let text := Text.replaced template "\x7bcurrent\x7d" (toString current)
  let text := Text.replaced text "\x7btotal\x7d" (toString total)
  Text.replaced text "\x7burl\x7d" url

/-- The template that the configuration asks for, if progress is to be reported. -/
def progressTemplate? (store : Store) : Option String :=
  match store.get? "output" "progress" with
  | none | some (.bool true) => some defaultProgressTemplate
  | some (.str template) => if template.isEmpty then none else some template
  | some _ => none

/-- Items that are still to be handed out, each with a line on a stream. -/
structure Progress where
  items : List Item
  total : Nat
  current : Nat := 0
  template : String
  out : OutStream

namespace Progress

def start (items : List Item) (template : String) (out : OutStream) : Progress :=
  { items, total := items.length, template, out }

def left (progress : Progress) : Nat :=
  progress.items.length

/-- Write the line of the next item and hand the item out, with the event of the line. A stream that
refuses the line does not keep the item back. -/
def next? (progress : Progress) : Option (Item × List Event × Progress) :=
  match progress.items with
  | [] => none
  | item :: rest =>
    let current := progress.current + 1
    let line := renderProgress progress.template current progress.total item.value
    let (written, out) := progress.out.writeLine line
    let events := if written.isOk then [.progress line] else []
    some (item, events, { progress with items := rest, current, out })

theorem left_of_next? {before after : Progress} {item : Item} {events : List Event}
    (step : before.next? = some (item, events, after)) : after.left + 1 = before.left := by
  unfold next? at step
  split at step
  · cases step
  · rename_i rest same
    cases step
    simp [left, same]

end Progress

namespace Workshop

variable {σ : Type}

/-- Process the items that a progress hands out, after some that led to `status` and `events`. -/
def dispatchReportedFrom (shop : Workshop σ) (status : ExitStatus) (events : List Event)
    (progress : Progress) (store : Store) (state : σ) : Dispatched σ × Progress :=
  match _step : progress.next? with
  | none => (⟨.ok status, store, state, events⟩, progress)
  | some (item, line, progress) =>
    let one := shop.dispatchOne item store state
    let events := events ++ line ++ one.events
    match one.result with
    | .error e => (⟨.error e, one.store, one.state, events⟩, progress)
    | .ok more => shop.dispatchReportedFrom (status ||| more) events progress one.store one.state
  termination_by progress.left
  decreasing_by have := Progress.left_of_next? _step; omega

def dispatchReported (shop : Workshop σ) (progress : Progress) (store : Store) (state : σ) :
    Dispatched σ × Progress :=
  shop.dispatchReportedFrom .success [] progress store state

end Workshop
end BatchFetch
