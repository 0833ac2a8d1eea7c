import StripsReach.Report.Plain
import StripsReach.Report.Record

/-!
# The files of a report

A task is reported by its planning graph or by its relaxed planning graph, in plain text or as a
record. Each choice fixes the names of the files and what they hold.
-/

namespace StripsReach

/-- The graph that a report is about. -/
inductive ReportKind where
  | planning
  | relaxation
  deriving DecidableEq, Repr

namespace ReportKind

def word : ReportKind → String
  | planning => "graphplan"
  | relaxation => "relaxation"

def ofWord? (s : String) : Option ReportKind := [planning, relaxation].find? fun k => k.word = s

end ReportKind

/-- The notation of a report. -/
inductive ReportFormat where
  | text
  | json
  deriving DecidableEq, Repr

namespace ReportFormat

def word : ReportFormat → String
  | text => "text"
  | json => "json"

def ofWord? (s : String) : Option ReportFormat := [text, json].find? fun f => f.word = s

end ReportFormat

namespace Report

/-- The files that report the planning graph of the task, by name and in the order in which they
are written. -/
def planningFiles (format : ReportFormat) (t : Task) (g : PlanningGraph) :
    Except Fault (List (String × String)) := do
  let atoms ← t.groundAtoms
  match format with
  | .text =>
    .ok [("ground_facts_actions.txt", groundFacts atoms t.actions),
      ("graphplan_states_actions.txt", states t g),
      ("graphplan_mutexes.txt", mutexes t g)]
  | .json => .ok [("graphplan.json", (planningRecord t atoms g).pretty)]

/-- The file that reports the relaxed planning graph of the task, by name. -/
def relaxedFiles (format : ReportFormat) (t : Task) (g : RelaxedGraph) : List (String × String) :=
  match format with
  | .text => [("relaxation_results.txt", relaxed t g)]
  | .json => [("relaxation.json", (relaxedRecord t g).pretty)]

def files (kind : ReportKind) (format : ReportFormat) (t : Task) :
    Except Fault (List (String × String)) :=
  match kind with
  | .planning => planningFiles format t t.planningGraph
  | .relaxation => .ok (relaxedFiles format t t.relaxedGraph)

end Report

end StripsReach
