import StripsReach.Config
import StripsReach.Grounding
import StripsReach.Graph.Planning
import StripsReach.Graph.Relaxed

/-!
# Tasks

A domain, a problem of it, and the ground actions, which are numbered by their place in the
list. A task is built from two texts, the domain's first; the first fault met is reported.
-/

namespace StripsReach

/-- A domain and a problem with all ground actions. -/
structure Task where
  domain : Domain
  problem : Problem
  actions : List GroundAction
  deriving DecidableEq, Repr

namespace Task

def ground (config : Config) (domain : Domain) (problem : Problem) : Except Fault Task := do
  let actions ← domain.groundActions problem.catalog config.rules
  .ok ⟨domain, problem, actions⟩

/-- What is reported about a task that has been read, with what was reported while it was
grounded. -/
def events (t : Task) (groundingEvents : List Event) : List Event :=
  ⟨.info, "parsed task",
    [("domain", .text t.domain.name), ("problem", .text t.problem.name),
      ("objects", .number t.problem.objects.length),
      ("init", .number t.problem.init.length)]⟩ ::
  groundingEvents ++ [⟨.info, "grounding finished", [("ground_actions", .number t.actions.length)]⟩]

/-- The task that a problem's text poses in a domain that has been read, with all that is
reported down to level `least`. -/
def ofProblemText (least : Level) (config : Config) (domain : Domain × List Event)
    (text : String) : Except Fault (Task × List Event) := do
  let (problem, problemEvents) ← Problem.ofText domain.1 config.flattened text
  let groundingEvents ← domain.1.groundingEvents least problem.catalog config.rules
  let task ← ground config domain.1 problem
  .ok (task, Event.within least (domain.2 ++ problemEvents ++ task.events groundingEvents))

/-- The task that two texts pose, with all that is reported down to level `least`. A count of
assignments is a reason to refuse the task only where counts are reported. -/
def ofTexts (least : Level) (config : Config) (domainText problemText : String) :
    Except Fault (Task × List Event) := do
  let domain ← Domain.ofText domainText
  ofProblemText least config domain problemText

def action? (t : Task) (id : Nat) : Option GroundAction := t.actions[id]?

def groundAtoms (t : Task) : Except Fault (List Atom) :=
  t.domain.groundAtoms t.problem.catalog

def planningGraph (t : Task) : PlanningGraph := .build t.actions t.problem.init

def relaxedGraph (t : Task) : RelaxedGraph := .build t.actions t.problem.init

end Task

end StripsReach
