import StripsReach.Fault
import StripsReach.Files.Path

/-!
# Access to files

What the program asks of the place where its files are, so that it runs over a file system as
well as over a tree of files in memory.
-/

namespace StripsReach

/-- Reading and writing of files by path. -/
class FileAccess (m : Type → Type) where
  /-- The text that a file holds. -/
  readText : String → ExceptT FileFault m String
  /-- Puts a text into a file, in place of what it held. -/
  writeText : String → String → ExceptT FileFault m Unit
  /-- Makes a directory inside one that is there. -/
  makeDirectory : String → ExceptT FileFault m Unit
  /-- Whether a path leads to a directory. -/
  isDirectory : String → m Bool

namespace FileAccess

variable {m : Type → Type} [Monad m] [FileAccess m]

/-- Makes the directory, where one that is there already does no harm. -/
def ensureDirectory (path : String) : ExceptT FileFault m Unit :=
  tryCatch (makeDirectory path) fun cause => do
    let there ← (isDirectory path : m Bool)
    if there then pure () else throw cause

/-- Makes the directory of the first path. If the one it lies in is missing, that one is made
first, whose path is the next. -/
def ensureWithin : List String → ExceptT FileFault m Unit
  | [] => pure ()
  | path :: parents =>
    tryCatch (ensureDirectory path) fun cause =>
      match cause with
      | .notFound => do
        ensureWithin parents
        ensureDirectory path
      | cause => throw cause

/-- Makes the directory and all that it lies in, as far as they are missing. The empty path leads
to a directory that is always there. -/
def makeDirectories (path : String) : ExceptT FileFault m Unit :=
  if path.isEmpty then pure () else ensureWithin (path :: Path.parents path)

/-- What an action on the file at `path` does. Its faults are reported with the path. -/
def reporting {α : Type} (path : String) (action : ExceptT FileFault m α) : ExceptT Fault m α :=
  action.adapt (Fault.file path)

end FileAccess

end StripsReach
