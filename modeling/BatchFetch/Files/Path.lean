import BatchFetch.Text.Cut

namespace BatchFetch.Path

def isAbsolute (path : String) : Bool :=
  path.toList.head? = some '/'

/-- The path of `name` below `base`: an absolute name stands for itself. -/
def join (base name : String) : String :=
  if isAbsolute name then name
  else if base.isEmpty || base.toList.getLast? = some '/' then base ++ name
  else base ++ "/" ++ name

/-- The pieces of a path between its slashes. -/
def pieces (path : String) : List String :=
  (Text.pieces '/' path.toList).map String.ofList

/-- Whether a piece stands for no component. -/
def isIdle (piece : String) : Bool :=
  piece.isEmpty || piece == "."

/-- The pieces up to the last one that stands for a component; the first piece stays. -/
def trimPieces : List String → List String
  | [] => []
  | first :: rest => first :: (rest.reverse.dropWhile isIdle).reverse

/-- The path in which the last component lies. -/
def parent? (path : String) : Option String :=
  match trimPieces (pieces path) with
  | [] => none
  | [first] => if first.isEmpty then none else some ""
  | kept =>
    match trimPieces kept.dropLast with
    | [""] => some "/"
    | kept => some ("/".intercalate kept)

/-- The name of the last component, unless that is the parent directory. -/
def fileName? (path : String) : Option String :=
  match (trimPieces (pieces path)).getLast? with
  | none => none
  | some name => if isIdle name || name == ".." then none else some name

/-- The part of the file name behind its last dot; a leading dot does not count. -/
def extension? (path : String) : Option String :=
  match (fileName? path).bind fun name => Text.cutLast '.' name.toList with
  | none => none
  | some ([], _) => none
  | some (_, extension) => some (String.ofList extension)

end BatchFetch.Path
