import BatchFetch.Directive.Basic

namespace BatchFetch

/-- A target alone, or with the directives that precede it. -/
inductive Item where
  | plain (value : String)
  | enriched (value : String) (globals locals : List Directive)
  deriving DecidableEq, Inhabited

namespace Item

def value : Item → String
  | plain value => value
  | enriched value _ _ => value

def isEnriched : Item → Bool
  | plain _ => false
  | enriched _ _ _ => true

/-- The directives that stay in effect after the target. -/
def globals : Item → List Directive
  | plain _ => []
  | enriched _ globals _ => globals

/-- The directives for the target alone. -/
def locals : Item → List Directive
  | plain _ => []
  | enriched _ _ locals => locals

/-- The target, the directives that stay in effect and those for the target alone: all that is to be
known of an item. -/
def parts (item : Item) : String × List Directive × List Directive :=
  (item.value, item.globals, item.locals)

/-- The item for a target with the directives collected so far. -/
def ofPending (value : String) (globals locals : List Directive) : Item :=
  if globals.isEmpty && locals.isEmpty then plain value else enriched value globals locals

end Item
end BatchFetch
