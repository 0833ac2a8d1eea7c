import StripsReach.Run

/-!
# The program

Runs the call on the command line over the file system. Reports go to standard error, as far as
the verbosity asks for them.
-/

namespace StripsReach

def FileFault.ofError : IO.Error → FileFault
  | .noFileOrDirectory .. => .notFound
  | .alreadyExists .. => .alreadyThere
  | .inappropriateType _ code details =>
    if code = 20 then .notDirectory
    else if code = 21 then .isDirectory
    else .other details
  | .permissionDenied _ _ details => .other details
  | e => .other (toString e)

def ofSystem {α : Type} (action : IO α) : ExceptT FileFault IO α :=
  ExceptT.mk do
    try
      return .ok (← action)
    catch e =>
      return .error (.ofError e)

instance : FileAccess IO where
  readText path := do
    let content ← ofSystem do
      let handle ← IO.FS.Handle.mk path .read
      handle.readBinToEnd
    match String.fromUTF8? content with
    | some text => pure text
    | none => throw .notText
  writeText path text := ofSystem (IO.FS.writeFile path text)
  makeDirectory path := ofSystem (IO.FS.createDir path)
  isDirectory path := do
    try
      (← IO.FS.realPath path).isDir
    catch _ => pure false

end StripsReach

open StripsReach

/-- The exit code is zero for a call that was run, one for a fault and two for what is no call.
-/
def main (words : List String) : IO UInt32 := do
  match CommandLine.parse? words with
  | none =>
    IO.eprintln CommandLine.usage
    return 2
  | some call =>
    match ← (call.run call.verbosity.level : ExceptT Fault IO Outcome).run with
    | .error fault =>
      IO.eprintln (Event.line call.colour ⟨.error, fault.message, []⟩)
      return 1
    | .ok outcome =>
      for event in outcome.events do
        IO.eprintln (event.line call.colour)
      return 0
