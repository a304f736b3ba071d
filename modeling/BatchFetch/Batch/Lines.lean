import BatchFetch.Batch.Item
import BatchFetch.Log

namespace BatchFetch

/-- What a line is, once it is trimmed. -/
inductive LineKind where
  | ignored
  | directive (text : List Char)
  | target (text : List Char)
  deriving DecidableEq

def LineKind.of (line : String) : LineKind :=
  match Text.trim line.toList with
  | [] => ignored
  | '#' :: _ => ignored
  | '-' :: rest => directive ('-' :: rest)
  | text => target text

/-- The state between two lines: how many lines were read, the directives that wait for a target,
the warnings so far, and what was logged under the name of the source. -/
structure LineReader where
  origin : String := "input file"
  read : Nat := 0
  globals : List Directive := []
  locals : List Directive := []
  warnings : List Warning := []
  events : List Event := []
  deriving DecidableEq, Inhabited

namespace LineReader

def pending (reader : LineReader) : Nat :=
  reader.globals.length + reader.locals.length

/-- Take in a directive line, the last one read. -/
def queue (reader : LineReader) (text : List Char) : LineReader :=
  match Directive.parse text with
  | .ok d =>
    match d.scope with
    | .global => { reader with globals := reader.globals ++ [d] }
    | .oneTarget => { reader with locals := reader.locals ++ [d] }
  | .error problem =>
    let warning : Warning := ⟨reader.read, problem⟩
    { reader with
      warnings := reader.warnings ++ [warning]
      events := reader.events ++ [.warn s!"{reader.origin}: {warning.message}"] }

def clear (reader : LineReader) : LineReader :=
  { reader with globals := [], locals := [] }

/-- Read up to the next target. The answer holds the item, if there was a target, the state, and the
lines that are left. Directives behind the last target are forgotten. -/
def next (reader : LineReader) : List String → Option Item × LineReader × List String
  | [] => (none, reader.clear, [])
  | line :: rest =>
    let reader := { reader with read := reader.read + 1 }
    match LineKind.of line with
    | .ignored => reader.next rest
    | .directive text => (reader.queue text).next rest
    | .target text =>
      let item := Item.ofPending (String.ofList text) reader.globals reader.locals
      (some item, reader.clear, rest)

theorem next_rest_length {reader after : LineReader} {lines rest : List String} {item : Item}
    (found : reader.next lines = (some item, after, rest)) : rest.length < lines.length := by
  induction lines generalizing reader with
  | nil => simp [next] at found
  | cons line lines ih =>
    unfold next at found
    simp only at found
    split at found
    · exact Nat.lt_succ_of_lt (ih found)
    · exact Nat.lt_succ_of_lt (ih found)
    · simp only [Prod.mk.injEq] at found
      rw [← found.2.2]
      exact Nat.lt_succ_self _

/-- All items that are left, and the state at the end of the lines. -/
def items (reader : LineReader) (lines : List String) : List Item × LineReader :=
  match _found : reader.next lines with
  | (none, after, _) => ([], after)
  | (some item, after, rest) =>
    let (more, last) := after.items rest
    (item :: more, last)
  termination_by lines.length
  decreasing_by exact next_rest_length _found

/-- Append all items that are left to a list, one after the other. -/
def appendItems (reader : LineReader) (items : List Item) (lines : List String) :
    List Item × LineReader :=
  match _found : reader.next lines with
  | (none, after, _) => (items, after)
  | (some item, after, rest) => after.appendItems (items ++ [item]) rest
  termination_by lines.length
  decreasing_by exact next_rest_length _found

end LineReader

def Item.ofLines (lines : List String) : List Item :=
  (({} : LineReader).items lines).1

end BatchFetch
