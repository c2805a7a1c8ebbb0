/-! Paths, as text with slashes.  Joining keeps what is written: a path is nowhere shortened, and
a path that begins with a slash leads away from whatever it is joined to. -/

namespace ClassBench.Path

/-- Whether a path begins at the top of all files. -/
def isAbsolute (path : String) : Bool := path.startsWith "/"

/-- The path that `right` is, seen from `left`. -/
def join (left right : String) : String :=
  if isAbsolute right then right
  else if left = "" ∨ left.endsWith "/" then left ++ right
  else left ++ "/" ++ right

/-- The parts of a path between its slashes. -/
def parts (path : String) : List String := (path.toList.splitOn '/').map String.ofList

/-- Drops parts that stay where they are from the end, but not the first part. -/
def trimEnd : List String → List String
  | [] => []
  | first :: rest => first :: (rest.reverse.dropWhile fun part => part = "" ∨ part = ".").reverse

/-- The path that leads to the directory of a file. -/
def parent (path : String) : String :=
  match trimEnd (parts path).dropLast with
  | [""] => "/"
  | parts => "/".intercalate parts

end ClassBench.Path
