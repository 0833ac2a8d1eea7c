/-!
# Paths

A path is a text of names with slashes between them. A dot stands for the directory it is in,
two dots for the one above.
-/

namespace StripsReach.Path

def pieces (path : String) : List String := (path.splitToList (· = '/'))

/-- The names that a path goes through. Empty ones and dots lead nowhere, but for a dot at the
start. -/
def components (path : String) : List String :=
  match pieces path with
  | [] => []
  | first :: rest =>
    let rest := rest.filter fun name => name ≠ "" && name ≠ "."
    if first = "" then rest else first :: rest

def child (directory file : String) : String :=
  if directory.isEmpty || directory.endsWith "/" then directory ++ file
  else directory ++ "/" ++ file

/-- The paths of the directories that the path goes through, the innermost first. -/
def parents (path : String) : List String :=
  let names := components path
  let start := if path.startsWith "/" then "/" else ""
  ((List.range names.length).drop 1).reverse.map fun count =>
    start ++ "/".intercalate (names.take count)

end StripsReach.Path
