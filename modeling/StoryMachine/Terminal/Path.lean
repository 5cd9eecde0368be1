/-!
# Paths

File names as the player sees them: a text of parts between slashes.  Parts that
are empty or a single dot stand for nothing, except a dot at the very beginning.
-/

namespace StoryMachine.Terminal.Path

/-- The parts of a path between its slashes. -/
def pieces (path : String) : List String :=
  (path.toList.splitOn '/').map String.ofList

/-- Whether a path starts at the root. -/
def isAbsolute (path : String) : Bool :=
  path.startsWith "/"

/-- The parts of a path that stand for something; a dot counts at the beginning. -/
def parts (path : String) : List String :=
  match pieces path with
  | [] => []
  | first :: rest =>
    (if first = "" then [] else [first]) ++ rest.filter fun part => part ≠ "" && part ≠ "."

/-- A path within a directory.  A path that starts at the root stays as it is. -/
def join (directory path : String) : String :=
  if isAbsolute path || directory.isEmpty then path
  else if directory.endsWith "/" then directory ++ path
  else directory ++ "/" ++ path

/-- The last part of a path, unless it is one of the two dots. -/
def fileName? (path : String) : Option String :=
  match (parts path).getLast? with
  | some part => if part = "." ∨ part = ".." then none else some part
  | none => none

/-- A file name without the last dot in it and what follows; a dot at the beginning
does not count. -/
def stem (name : String) : String :=
  let reversed := name.toList.reverse
  let tail := reversed.takeWhile (· ≠ '.')
  match reversed.drop (tail.length + 1) with
  | [] => name
  | before => String.ofList before.reverse

/-- The name of the file at a path without its extension. -/
def fileStem? (path : String) : Option String :=
  (fileName? path).map stem

end StoryMachine.Terminal.Path
