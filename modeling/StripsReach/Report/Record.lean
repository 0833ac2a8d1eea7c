import StripsReach.Json
import StripsReach.Task

/-!
# Reports as records

The JSON form of what the graphs are made of, and the two records in which a task is reported
with its planning graph or with its relaxed planning graph. Fields stand in a fixed order, and
sets are written in ascending order.
-/

namespace StripsReach

def Atom.toJson (a : Atom) : Json :=
  .object [("predicate", .string a.predicate), ("arguments", .array (a.arguments.map .string))]

def Atom.listToJson (atoms : List Atom) : Json := .array (atoms.map Atom.toJson)

def Fact.toJson (f : Fact) : Json :=
  .object [("polarity", .string f.polarity.word), ("atom", f.atom.toJson)]

def State.toJson (s : State) : Json := .array (s.toList.map Fact.toJson)

def GroundAction.toJson (a : GroundAction) : Json :=
  .object
    [("name", .string a.name),
      ("parameters", .array (a.arguments.map .string)),
      ("positive_preconditions", Atom.listToJson a.needs),
      ("negative_preconditions", Atom.listToJson a.precondition.negative),
      ("add_effects", Atom.listToJson a.adds),
      ("delete_effects", Atom.listToJson a.deletes),
      ("cost", .number a.cost)]

def ActionPair.toJson (pair : ActionPair) : Json :=
  .array [.number pair.first, .number pair.second]

def EffectMutex.toJson : EffectMutex → Json
  | actions pair => .object [("actions", pair.toJson)]
  | actionFact action atom => .object [("action-fact", .array [.number action, atom.toJson])]

def Atom.conflictToJson (a : Atom) : Json :=
  .array [(Fact.holding a).toJson, (Fact.deleted a).toJson]

/-- The entries level by level, and all of them. -/
def Timeline.toJson {α : Type} [Ord α] [Std.TransOrd α] (entry : α → Json) (t : Timeline α) :
    Json :=
  .object
    [("per_level",
        .array ((t.byLevel t.levelCount).map fun entries => .array (entries.map entry))),
      ("all_time", .array (t.entries.map entry))]

def MutexHistory.toJson (m : MutexHistory) : Json :=
  .object
    [("inconsistent_effects", m.effects.toJson EffectMutex.toJson),
      ("interference", m.interference.toJson ActionPair.toJson),
      ("inconsistent_support", m.support.toJson Atom.conflictToJson)]

def Termination.toJson (t : Termination) : Json :=
  .object [("kind", .string t.kind.tag), ("level", .number t.level)]

def idsToJson (ids : List Nat) : Json := .array (ids.map .number)

def Layer.toJson (layer : Layer) : Json :=
  .object
    [("level", .number layer.level),
      ("state", layer.state.toJson),
      ("actions", idsToJson layer.actions)]

/-- The levels, why there are no more, and the mutexes. -/
def PlanningGraph.toJson (g : PlanningGraph) : Json :=
  .object
    [("layers", .array (g.layers.map Layer.toJson)),
      ("termination", g.termination.toJson),
      ("mutexes", g.mutexes.toJson)]

def Costs.toJson (costs : Costs) : Json :=
  .array (costs.toList.map fun (atom, cost) =>
    .object [("atom", atom.toJson), ("cost", .number cost)])

def RelaxedLayer.toJson (layer : RelaxedLayer) : Json :=
  .object
    [("level", .number layer.level),
      ("costs", layer.costs.toJson),
      ("actions", idsToJson layer.actions)]

/-- The levels and why there are no more. -/
def RelaxedGraph.toJson (g : RelaxedGraph) : Json :=
  .object
    [("layers", .array (g.layers.map RelaxedLayer.toJson)),
      ("termination", g.termination.toJson)]

namespace Report

def heading (t : Task) : List (String × Json) :=
  [("domain", .string t.domain.name), ("problem", .string t.problem.name)]

def actionField (t : Task) : String × Json :=
  ("ground_actions", .array (t.actions.map GroundAction.toJson))

def factField (atoms : List Atom) : String × Json :=
  ("ground_facts",
    .array ((atoms.flatMap fun a => [Fact.holding a, Fact.deleted a]).map Fact.toJson))

/-- The record of a task over the ground `atoms`, with its planning graph. -/
def planningRecord (t : Task) (atoms : List Atom) (g : PlanningGraph) : Json :=
  .object <| heading t ++
    [factField atoms,
      actionField t,
      ("graph", g.toJson),
      ("goal_level", .ofNat? (g.goalLevel t.problem.goal.positive))]

def relaxedRecord (t : Task) (g : RelaxedGraph) : Json :=
  .object <| heading t ++
    [actionField t,
      ("graph", g.toJson),
      ("termination", g.termination.toJson),
      ("goal_level", .ofNat? (g.goalLevel t.problem.goal.positive)),
      ("goal_value", .ofNat? (g.goalValue t.problem.goal.positive))]

end Report

end StripsReach
