import ClassBench.Bytes
import ClassBench.Path

/-! A tree of files.  Paths start from the working directory, which always is there; files
outside of it are kept too, but the listing leaves them out. -/

namespace ClassBench

/-- What stands at a place in the tree. -/
inductive FileNode where
  | directory
  | file (bytes : Bytes)
  deriving DecidableEq, Repr

/-- A place in the tree: the names from the working directory down, after a slash for a place below
the top of all files or after two dots for each directory above the working one. -/
abbrev Place := List String

/-- Whether every file tree has a directory at a place. -/
def Place.isFixed (place : Place) : Bool := place == ["/"] || place.all (· == "..")

/-- The place above. -/
def Place.above (place : Place) : Place :=
  if place = ["/"] then place
  else if place.isFixed then ".." :: place
  else place.dropLast

/-- Whether a place is within the working directory. -/
def Place.isInside : Place → Bool
  | [] => true
  | first :: _ => first != "/" && first != ".."

/-- The files and directories that were made. -/
structure FileTree where
  nodes : List (Place × FileNode) := []
  deriving DecidableEq, Repr

namespace FileTree

/-- What stands at a place. -/
def node? (t : FileTree) (place : Place) : Option FileNode :=
  if place.isFixed then some .directory else t.nodes.lookup place

/-- Puts something at a place, instead of what stood there. -/
def put (t : FileTree) (place : Place) (node : FileNode) : FileTree :=
  { nodes := (place, node) :: t.nodes.filter (·.1 != place) }

/-- Whether a directory can hold a file of this name. -/
def isName (name : String) : Bool := name.utf8ByteSize ≤ 255

/-- Whether a path can be used at all. -/
def isUsable (path : String) : Bool := !path.toList.contains '\x00' && path.utf8ByteSize < 4096

/-- The place that one part of a path leads to.  Only a directory leads anywhere. -/
def follow (t : FileTree) (place : Place) (part : String) : Option Place :=
  if t.node? place ≠ some .directory then none
  else if part = "" ∨ part = "." then some place
  else if part = ".." then some place.above
  else if isName part then some (place ++ [part])
  else none

/-- The place where a path starts, and its parts from there on. -/
def start (path : String) : Place × List String :=
  if Path.isAbsolute path then (["/"], Path.parts path) else ([], Path.parts path)

/-- The place that a path leads to, whether or not anything stands there. -/
def locate? (t : FileTree) (path : String) : Option Place :=
  if isUsable path then (start path).2.foldlM t.follow (start path).1 else none

/-- The bytes of the file that a path leads to. -/
def read? (t : FileTree) (path : String) : Option Bytes := do
  match t.node? (← t.locate? path) with
  | some (.file bytes) => some bytes
  | _ => none

/-- The directories that a path leads through from a place on are made where they are missing; the
answer is whether they could be. -/
def makeFrom (t : FileTree) (place : Place) : List String → Bool × FileTree
  | [] => (t.node? place = some .directory, t)
  | part :: rest =>
    match t.follow place part with
    | none => (false, t)
    | some next => if (t.node? next).isSome then t.makeFrom next rest
      else (t.put next .directory).makeFrom next rest

/-- Makes the directories that a path leads through. -/
def makeDirectories (t : FileTree) (path : String) : Bool × FileTree :=
  if isUsable path then t.makeFrom (start path).1 (start path).2 else (false, t)

/-- The files within the working directory, in the order of their paths. -/
def listing (t : FileTree) : List (String × Bytes) :=
  let files := t.nodes.filterMap fun (place, node) =>
    match node with
    | .file bytes => if place.isInside then some ("/".intercalate place, bytes) else none
    | .directory => none
  files.mergeSort fun a b => a.1 ≤ b.1

end FileTree

end ClassBench
