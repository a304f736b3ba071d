import BatchFetch.Yaml.Basic

namespace BatchFetch.Yaml

/-- White space that has been passed and not been written yet, latest character first. -/
inductive Gap where
  | blanks (passed : List Char)
  /-- A first break, unless it was escaped, and further ones. -/
  | breaks (first : Option Char) (further : List Char)
  deriving DecidableEq, Inhabited

/-- What a gap is written as, latest character first. -/
def Gap.written : Gap → List Char
  | blanks passed => passed
  | breaks (some '\n') [] => [' ']
  | breaks (some '\n') further => further
  | breaks first further => further ++ first.toList

/-- The text so far, latest character first, and the gap behind it. -/
structure Folding where
  reversed : List Char := []
  gap : Gap := .blanks []
  deriving DecidableEq, Inhabited

namespace Folding

/-- Whether white space follows the text so far. -/
def inGap (folding : Folding) : Bool :=
  folding.gap ≠ .blanks []

/-- Whether the text so far lies on lines above. -/
def onNewLine (folding : Folding) : Bool :=
  match folding.gap with
  | .blanks _ => false
  | .breaks _ _ => true

def blank (folding : Folding) (c : Char) : Folding :=
  match folding.gap with
  | .blanks passed => { folding with gap := .blanks (c :: passed) }
  | .breaks _ _ => folding

def lineBreak (folding : Folding) (c : Char) : Folding :=
  match folding.gap with
  | .blanks _ => { folding with gap := .breaks (some c) [] }
  | .breaks first further => { folding with gap := .breaks first (c :: further) }

def close (folding : Folding) : Folding :=
  { reversed := folding.gap.written ++ folding.reversed }

/-- Go on behind a break that does not count. -/
def escapedBreak (folding : Folding) : Folding :=
  { folding.close with gap := .breaks none [] }

def char (folding : Folding) (c : Char) : Folding :=
  { reversed := c :: folding.close.reversed }

def text (folding : Folding) : String :=
  String.ofList folding.reversed.reverse

end Folding
end BatchFetch.Yaml
