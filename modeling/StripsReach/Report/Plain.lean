import StripsReach.Task

/-!
# Reports in plain text

Four texts about a task: its ground facts and actions, the levels of its planning graph, the
mutexes of that graph, and the levels of its relaxed planning graph. Lists are separated by
rules, and everything stands in the order in which the graphs hold it.
-/

namespace StripsReach.Report

def rule (length : Nat) : String := String.ofList (List.replicate length '-') ++ "\n"

def shortRule : String := rule 50

def longRule : String := rule 100

/-- Every atom followed by its negation, a line each, and every action. -/
def groundFacts (atoms : List Atom) (actions : List GroundAction) : String :=
  let both (a : Atom) : String :=
    (Fact.holding a).text ++ "\n" ++ (Fact.deleted a).text ++ "\n"
  "Ground facts:\n" ++ shortRule ++ String.join (atoms.map both) ++
    "Ground actions:\n" ++ shortRule ++ String.join (actions.map GroundAction.describe)

/-- The numbered actions of the task, none for a number that is too large. -/
def numbered (t : Task) (ids : List Nat) : List GroundAction := ids.filterMap t.action?

def actionText (t : Task) (id : Nat) : String :=
  ((t.action? id).map GroundAction.text).getD ""

/-- The actions of a level under a heading, or nothing without actions. -/
def actionBlock (t : Task) (ids : List Nat) : String :=
  if ids.isEmpty then ""
  else "\nActions:\n" ++ String.join ((numbered t ids).map GroundAction.describe)

/-- The state of a level and the actions that it enables. The last level enables none that count.
-/
def layerBlock (t : Task) (g : PlanningGraph) (layer : Layer) : String :=
  let enabled := g.enabledAt layer.level
  let facts := s!"At level {layer.level} we had {layer.state.size} facts"
  let heading :=
    if layer.level < g.lastLevel then s!"{facts} and {enabled.length} enabled actions\n"
    else s!"{facts}\n"
  heading ++ "\nFacts:\n" ++ layer.state.text ++ actionBlock t enabled ++ longRule

/-- The levels of the planning graph, why there are no more, and when the goals hold. -/
def states (t : Task) (g : PlanningGraph) : String :=
  let goals :=
    match g.goalLevel t.problem.goal.positive with
    | some level => s!"All positive goals hold from level {level}\n"
    | none => "Some positive goals are never reached\n"
  "Actions and states per level\n" ++ shortRule ++
    String.join (g.layers.map (layerBlock t g)) ++
    s!"Expansion stopped: {g.termination.kind.words} at level {g.termination.level}\n" ++ goals

/-- The entries of one mutex relation, a text each, under the levels at which they came up. -/
structure MutexSection where
  title : String
  levels : List (List String)
  deriving DecidableEq, Repr

namespace MutexSection

/-- The first `count` levels of a relation, with a text for every entry. -/
def ofTimeline {α : Type} [Ord α] [Std.TransOrd α] (title : String) (line : α → String)
    (count : Nat) (t : Timeline α) : MutexSection :=
  ⟨title, (t.byLevel count).map fun entries => entries.map line⟩

/-- One level: its entries, or the remark that there are none. -/
def levelText (level : Nat) (entries : List String) : String :=
  let lines := if entries.isEmpty then ["No mutexes"] else entries
  s!"At level {level}:\n" ++ String.join (lines.map fun line => line ++ "\n" ++ longRule)

def text (s : MutexSection) : String :=
  s.title ++ ":\n" ++
    String.join (s.levels.zipIdx.map fun (entries, level) => levelText level entries) ++ "\n"

end MutexSection

def sideBySide (a b : String) : String := a ++ "\t\t" ++ b

def pairLine (t : Task) (pair : ActionPair) : String :=
  sideBySide (actionText t pair.first) (actionText t pair.second)

def effectLine (t : Task) : EffectMutex → String
  | .actions pair => pairLine t pair
  | .actionFact action atom => sideBySide (actionText t action) atom.text

/-- The line for an atom that holds although it was deleted. -/
def supportLine (a : Atom) : String := sideBySide (Fact.holding a).text (Fact.deleted a).text

/-- The three relations, over all levels but the last. -/
def mutexSections (t : Task) (g : PlanningGraph) : List MutexSection :=
  [.ofTimeline "Inconsistent effects" (effectLine t) g.lastLevel g.mutexes.effects,
    .ofTimeline "Interference" (pairLine t) g.lastLevel g.mutexes.interference,
    .ofTimeline "Inconsistent support" supportLine g.lastLevel g.mutexes.support]

def mutexes (t : Task) (g : PlanningGraph) : String :=
  "Mutexes found:\n" ++ String.join ((mutexSections t g).map MutexSection.text)

/-- The costs of a level and the actions that it enables, which the next level tells. -/
def relaxedLayerBlock (t : Task) (g : RelaxedGraph) (layer : RelaxedLayer) : String :=
  let enabled := g.enabledAt layer.level
  let costLine (entry : Atom × Nat) : String := s!"{entry.1.text} - hadd value: {entry.2}\n"
  s!"At level {layer.level} we had {layer.costs.size} facts" ++
    s!" and {enabled.length} enabled actions\n" ++
    "\nFacts:\n" ++ String.join (layer.costs.toList.map costLine) ++ actionBlock t enabled ++
    longRule

def relaxed (t : Task) (g : RelaxedGraph) : String :=
  let goals :=
    match g.goalValue t.problem.goal.positive with
    | some value => s!"Goal hadd value = {value}\n"
    | none => "Some positive goals are never reached, no goal value\n"
  "Actions and states per level\n" ++ shortRule ++
    String.join (g.layers.map (relaxedLayerBlock t g)) ++ goals

end StripsReach.Report
