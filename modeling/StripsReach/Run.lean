import StripsReach.CommandLine
import StripsReach.Files.Access

/-!
# Running a call

A call reads its configuration, its domain and its problem, each understood before the next is
read. Then it makes the output directory and writes the files of the report there. The first
fault ends it.
-/

namespace StripsReach

open FileAccess

variable {m : Type → Type} [Monad m] [FileAccess m]

/-- The configuration that a file holds, or the standard one without a file. -/
def Config.read (path : Option String) : ExceptT Fault m Config :=
  match path with
  | none => pure {}
  | some path => do
    let text ← reporting path (readText path)
    match Config.ofToml? text with
    | some config => pure config
    | none => throw (.invalidConfig path)

/-- The task that two files pose, with all that is reported down to level `least`. -/
def Task.read (least : Level) (config : Config) (domainPath problemPath : String) :
    ExceptT Fault m (Task × List Event) := do
  let domainText ← reporting domainPath (readText domainPath)
  let domain ← ExceptT.mk (pure (Domain.ofText domainText))
  let problemText ← reporting problemPath (readText problemPath)
  ExceptT.mk (pure (Task.ofProblemText least config domain problemText))

namespace Report

def writeFile (directory : String) (file : String × String) : ExceptT Fault m String := do
  let path := Path.child directory file.1
  reporting path (writeText path file.2)
  pure path

/-- Writes the files of a report into the directory, which is made if it is missing, and gives
their paths. -/
def write (directory : String) (files : Except Fault (List (String × String))) :
    ExceptT Fault m (List String) := do
  reporting directory (makeDirectories directory)
  let files ← ExceptT.mk (pure files)
  files.mapM (writeFile directory)

end Report

/-- What a call comes to: the paths of the files written, and what was reported. -/
structure Outcome where
  written : List String
  events : List Event

namespace Invocation

/-- The files of the report that a call asks for, and what is reported about its graph. -/
def output (call : Invocation) (t : Task) :
    Except Fault (List (String × String)) × List Event :=
  match call.report with
  | .planning =>
    let graph := t.planningGraph
    (Report.planningFiles call.format t graph, graph.events)
  | .relaxation =>
    let graph := t.relaxedGraph
    (.ok (Report.relaxedFiles call.format t graph), graph.events)

def run (least : Level) (call : Invocation) : ExceptT Fault m Outcome := do
  let config ← Config.read call.config
  let (task, events) ← Task.read least config call.domain call.problem
  let (files, graphEvents) := call.output task
  let written ← Report.write call.outputDir files
  pure ⟨written, events ++ Event.within least graphEvents⟩

end Invocation

end StripsReach
