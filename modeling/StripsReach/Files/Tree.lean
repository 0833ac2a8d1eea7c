import StripsReach.Files.Access

/-!
# Trees of files in memory

A tree holds directories and files below a working directory. A place in the tree is the list of
names on the way down to it. Places above the working directory start with two dots, and the
directories that the working directory lies in are always there. Paths are read step by step:
every name but the last has to be that of a directory.
-/

namespace StripsReach

/-- What stands at a place. -/
inductive FileEntry where
  | directory
  | file (content : ByteArray)

abbrev Place := List String

/-- What stands at each place, where every place is given once. -/
structure FileTree where
  entries : List (Place × FileEntry) := []

namespace FileTree

def isOuter (place : Place) : Bool := place.all (· = "..")

def entry? (t : FileTree) (place : Place) : Option FileEntry :=
  if isOuter place then some .directory else t.entries.lookup place

/-- The tree with a place newly taken, or taken by something else. -/
def put (t : FileTree) (place : Place) (entry : FileEntry) : FileTree :=
  ⟨t.entries.filter (fun e => e.1 ≠ place) ++ [(place, entry)]⟩

def step (place : Place) (name : String) : Place :=
  if name = "" || name = "." then place
  else if name = ".." && !isOuter place then place.dropLast
  else place ++ [name]

/-- The most bytes that a name may have. -/
def nameLimit : Nat := 255

/-- The place that names lead to from a place. Only the last of them may be new. -/
def walk (t : FileTree) (place : Place) : List String → Except FileFault Place
  | [] => .ok place
  | name :: rest =>
    match t.entry? place with
    | none => .error .notFound
    | some (.file _) => .error .notDirectory
    | some .directory =>
      if nameLimit < name.utf8ByteSize then .error .nameTooLong
      else walk t (step place name) rest

/-- The most bytes that a path may have. -/
def pathLimit : Nat := 4095

/-- Refuses a text that is no path, whatever the tree holds. -/
def checkPath (path : String) : Except FileFault Unit :=
  if path.contains '\x00' then .error .badPath
  else if pathLimit < path.utf8ByteSize then .error .nameTooLong
  else if path.isEmpty || path.startsWith "/" then .error .notFound
  else .ok ()

def resolve (t : FileTree) (path : String) : Except FileFault Place := do
  checkPath path
  t.walk [] (Path.pieces path)

def readText (t : FileTree) (path : String) : Except FileFault String := do
  let place ← t.resolve path
  match t.entry? place with
  | none => .error .notFound
  | some .directory => .error .isDirectory
  | some (.file content) =>
    match String.fromUTF8? content with
    | some text => .ok text
    | none => .error .notText

def writeText (t : FileTree) (path text : String) : Except FileFault FileTree := do
  let place ← t.resolve path
  match t.entry? place with
  | some .directory => .error .isDirectory
  | _ => .ok (t.put place (.file text.toUTF8))

/-- The path without slashes at its end, which do not matter for a directory to be made. -/
def trimmed (path : String) : String :=
  String.ofList (path.toList.reverse.dropWhile (· = '/')).reverse

def makeDirectory (t : FileTree) (path : String) : Except FileFault FileTree := do
  checkPath path
  let place ← t.resolve (trimmed path)
  match t.entry? place with
  | some _ => .error .alreadyThere
  | none => .ok (t.put place .directory)

def isDirectory (t : FileTree) (path : String) : Bool :=
  match t.resolve path with
  | .ok place =>
    match t.entry? place with
    | some .directory => true
    | _ => false
  | .error _ => false

/-- The tree with something put where the names in `path` lead to, and with the directories on the
way. -/
def withEntry (t : FileTree) (path : String) (entry : FileEntry) : FileTree :=
  let place := (Path.pieces path).foldl step []
  let way := (List.range place.length).drop 1 |>.map fun count => place.take count
  let t := way.foldl (fun t parent =>
    if (t.entry? parent).isSome then t else t.put parent .directory) t
  if (t.entry? place).isSome then t else t.put place entry

/-- The files below the working directory, each with its path. -/
def files (t : FileTree) : List (String × ByteArray) :=
  t.entries.filterMap fun (place, entry) =>
    match entry with
    | .file content =>
      if place.head? = some ".." then none else some ("/".intercalate place, content)
    | .directory => none

/-- A step that may change the tree, or leave it as it is with a fault. -/
def update (change : FileTree → Except FileFault FileTree) :
    ExceptT FileFault (StateM FileTree) Unit := do
  match change (← get) with
  | .ok t => set t
  | .error cause => throw cause

instance : FileAccess (StateM FileTree) where
  readText path := do
    match (← get).readText path with
    | .ok text => pure text
    | .error cause => throw cause
  writeText path text := update (·.writeText path text)
  makeDirectory path := update (·.makeDirectory path)
  isDirectory path := do
    let t ← get
    pure (t.isDirectory path)

end FileTree

end StripsReach
