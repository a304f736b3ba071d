import BatchFetch.CommandLine.Basic
import BatchFetch.Text.Cut

namespace BatchFetch.CommandLine

/-- What words say, in order. Nothing behind a fault counts. -/
inductive Mark where
  /-- An option with a value that is attached to it. -/
  | attached (option : ValueOption) (value : String)
  /-- An option whose value is a word of its own, if there is one. -/
  | spaced (option : ValueOption) (value : Option String)
  | flag (flag : Flag)
  | target (word : String)
  | fault (reason : Refusal)
  deriving DecidableEq, Repr, Inhabited

/-- The marks of one word, and the option that waits for the next word. -/
structure WordReading where
  marks : List Mark := []
  waiting : Option ValueOption := none
  deriving DecidableEq, Repr, Inhabited

namespace WordReading

def after (mark : Mark) (reading : WordReading) : WordReading :=
  { reading with marks := mark :: reading.marks }

def fault (reason : Refusal) : WordReading := { marks := [.fault reason] }

/-- Read the letters behind a dash. What follows the letter of an option with a value is that value;
an equals sign may part them. -/
def letters : List Char → WordReading
  | [] => {}
  | letter :: rest =>
    match CommandOption.ofLetter? letter with
    | none => fault .unknownOption
    | some (.flag flag) => (letters rest).after (.flag flag)
    | some (.valued option) =>
      match rest with
      | [] => { waiting := some option }
      | '=' :: value => { marks := [.attached option (String.ofList value)] }
      | value => { marks := [.attached option (String.ofList value)] }

/-- Read what follows two dashes: a name, and a value behind an equals sign. -/
def long (text : List Char) : WordReading :=
  let (name, value) := match Text.cutFirst '=' text with
    | some (name, value) => (name, some (String.ofList value))
    | none => (text, none)
  match CommandOption.ofName? (String.ofList name), value with
  | none, _ => fault .unknownOption
  | some (.flag flag), none => { marks := [.flag flag] }
  | some (.flag _), some _ => fault .unwantedValue
  | some (.valued option), some value => { marks := [.attached option value] }
  | some (.valued option), none => { waiting := some option }

/-- Read a word that starts with a dash and is not a dash alone; nothing for any other word. -/
def ofDashed? (word : String) : Option WordReading :=
  match word.toList with
  | '-' :: '-' :: text => some (long text)
  | '-' :: letter :: rest => some (letters (letter :: rest))
  | _ => none

end WordReading

/-- The mark of an option that no word follows. -/
def unanswered (waiting : Option ValueOption) : List Mark :=
  (waiting.map fun option => Mark.spaced option none).toList

/-- The marks of words behind an option that waits for a value, if there is one. -/
def marksAfter (waiting : Option ValueOption) : List String → List Mark
  | [] => unanswered waiting
  | word :: rest =>
    if word = "--" then unanswered waiting ++ rest.map .target
    else
      match WordReading.ofDashed? word, waiting with
      | some reading, _ => unanswered waiting ++ reading.marks ++ marksAfter reading.waiting rest
      | none, some option => .spaced option (some word) :: marksAfter none rest
      | none, none => .target word :: marksAfter none rest

def marks (words : List String) : List Mark :=
  marksAfter none words

end BatchFetch.CommandLine
