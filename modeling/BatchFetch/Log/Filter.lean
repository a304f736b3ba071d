import BatchFetch.Log
import BatchFetch.Text.Blank
import BatchFetch.Text.Cut
import BatchFetch.Text.Digits

namespace BatchFetch

/-- How much is shown, from nothing to everything. -/
inductive Verbosity where
  | off | error | warn | info | debug | trace
  deriving DecidableEq, Repr, Inhabited

namespace Verbosity

def name : Verbosity → String
  | off => "off"
  | error => "error"
  | warn => "warn"
  | info => "info"
  | debug => "debug"
  | trace => "trace"

def rank : Verbosity → Nat
  | off => 0
  | error => 1
  | warn => 2
  | info => 3
  | debug => 4
  | trace => 5

/-- All levels, by rank. -/
def all : List Verbosity := [off, error, warn, info, debug, trace]

def ofName? (text : String) : Option Verbosity :=
  all.find? (·.name == text)

def max (a b : Verbosity) : Verbosity :=
  if a.rank ≤ b.rank then b else a

def shows (verbosity : Verbosity) : Level → Bool
  | .error => error.rank ≤ verbosity.rank
  | .warn => warn.rank ≤ verbosity.rank
  | .info => info.rank ≤ verbosity.rank

end Verbosity

/-- The messages that a rule is about. -/
inductive LogScope where
  | everything
  /-- Messages of the targets whose names start so. -/
  | target (name : String)
  | spans
  deriving DecidableEq, Repr, Inhabited

structure LogRule where
  scope : LogScope
  level : Verbosity
  deriving DecidableEq, Repr, Inhabited

namespace LogRule

/-- The level of a name in any case, or of a rank. -/
def levelOf? (text : List Char) : Option Verbosity :=
  let digits := match text with
    | '+' :: digits => digits
    | text => text
  match Text.number? 10 digits with
  | some rank => Verbosity.all[rank]?
  | none => Verbosity.ofName? (Text.asciiLower (String.ofList text))

/-- Whether a rule may start with a character. Letters of other scripts may stand in the name of a
target, as all characters beyond ASCII are taken to be. -/
def startsRule (c : Char) : Bool :=
  c.isAlphanum || "-:_[".toList.contains c || 127 < c.toNat

/-- The text of a rule without the blank space around it, which is passed over but not without
effect: no level is recognised in a padded rule. -/
structure Draft where
  text : List Char
  padded : Bool
  deriving DecidableEq, Repr, Inhabited

namespace Draft

def ofText (text : List Char) : Draft :=
  let inner := Text.trim text
  ⟨inner, inner != text⟩

/-- The level that a part of the rule names. -/
def named? (draft : Draft) (text : List Char) : Option Verbosity :=
  if draft.padded then none else levelOf? text

/-- The level behind an equals sign; nothing stands for everything. -/
def assigned? (draft : Draft) (text : List Char) : Option Verbosity :=
  if text.isEmpty && !draft.padded then some .trace else draft.named? text

/-- What follows a span: nothing, or a level. -/
def afterSpan? (draft : Draft) : List Char → Option Verbosity
  | [] => some .trace
  | '=' :: level => draft.assigned? level
  | _ => none

/-- The level of a rule about spans, from behind the opening bracket. A span may be told by a field;
a field with a value needs everything to be recorded. -/
def span? (draft : Draft) (text : List Char) : Option Verbosity :=
  match text.span fun c => c != ']' && c != '\x7b' with
  | (_, ']' :: rest) => draft.afterSpan? rest
  | (_, '\x7b' :: rest) =>
    match rest.span (· != '\x7d') with
    | (field, '\x7d' :: ']' :: rest) =>
      if field.isEmpty then none
      else (draft.afterSpan? rest).map fun level => if field.contains '=' then .trace else level
    | _ => none
  | _ => none

/-- The rule, if the text is one. A text without an equals sign that names no level is a target. -/
def rule? (draft : Draft) : Option LogRule :=
  if !(draft.text.head?.any startsRule) then none
  else
    match draft.text.span fun c => c != '=' && c != '[' with
    | (name, '=' :: level) =>
      (draft.assigned? level).map fun level => ⟨.target (String.ofList name), level⟩
    | (_, '[' :: rest) => (draft.span? rest).map fun level => ⟨.spans, level⟩
    | (name, _) =>
      some (match draft.named? name with
        | some level => ⟨.everything, level⟩
        | none => ⟨.target (String.ofList name), .trace⟩)

end Draft

/-- How specific a rule about the messages of a target is; nothing when the rule is not
about them. -/
def weight? (rule : LogRule) (target : String) : Option Nat :=
  match rule.scope with
  | .everything => some 0
  | .target name =>
    (Text.dropWord? name.toList target.toList).map fun _ => name.length
  | .spans => none

end LogRule

abbrev LogFilter := List LogRule

namespace LogFilter

/-- Show the messages up to a level. -/
def upTo (level : Verbosity) : LogFilter := [⟨.everything, level⟩]

/-- Read rules; none of them may be malformed, and empty ones do not count. -/
def ofText? (text : String) : Option LogFilter :=
  ((Text.pieces ',' text.toList).filter (!·.isEmpty)).mapM fun piece =>
    (LogRule.Draft.ofText piece).rule?

/-- The filter that a text asks for, or a single level when the text is absent, blank or
malformed. -/
def choose (rules : Option String) (level : Verbosity) : LogFilter :=
  let given := rules.bind fun text => if Text.isBlankText text then none else ofText? text
  given.getD (upTo level)

/-- The most verbose level that any rule asks for. -/
def verbosity (filter : LogFilter) : Verbosity :=
  filter.foldl (fun most rule => most.max rule.level) .off

/-- Choose between the best rule so far, with its weight, and one more. -/
def prefer (target : String) (best : Nat × Verbosity) (rule : LogRule) : Nat × Verbosity :=
  match rule.weight? target with
  | some weight => if best.1 ≤ weight then (weight, rule.level) else best
  | none => best

/-- The level for the messages of a target: that of the most specific rule, and of the last one of
several such rules. -/
def levelFor (filter : LogFilter) (target : String) : Verbosity :=
  (filter.foldl (prefer target) (0, .off)).2

/-- Whether an event is shown. Progress lines always are, and the target of all messages is the
program. -/
def shows (filter : LogFilter) : Event → Bool
  | .log level _ => (filter.levelFor programName).shows level
  | .progress _ => true

end LogFilter
end BatchFetch
