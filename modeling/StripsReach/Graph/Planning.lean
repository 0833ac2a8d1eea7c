import StripsReach.Descent
import StripsReach.Mutex.History
import StripsReach.Graph.Termination

/-!
# Planning graphs

A planning graph starts with the initial atoms. At every level all enabled actions are applied
together, which gives the state of the next level; what was deleted stays. The graph ends at the
first level that enables no action or whose actions change nothing. At every level before that
the mutexes are recorded.

It ends because a level that is followed by another leaves out an effect of some action that
the next level has, and there are finitely many effects.
-/

namespace StripsReach

/-- The state at a level, and the actions applied at the level before. -/
structure Layer where
  level : Nat
  state : State
  actions : List Nat
  deriving DecidableEq

/-- The levels of a graph, why there are no more, and what excludes what. -/
structure PlanningGraph where
  layers : List Layer
  termination : Termination
  mutexes : MutexHistory

namespace PlanningGraph

def enabledBy (state : State) (actions : List NumberedAction) : List NumberedAction :=
  actions.filter fun a => state.enables a.action

def successor (actions : List NumberedAction) (state : State) : State :=
  ((enabledBy state actions).map NumberedAction.action).foldl State.apply state

/-- How many effects of the actions are not yet in the state. -/
def missing (actions : List NumberedAction) (state : State) : Nat :=
  (actions.flatMap fun a => State.effects a.action).countP fun f => f ∉ state

theorem mem_successor {actions : List NumberedAction} {state : State} {f : Fact} :
    f ∈ successor actions state ↔
      (∃ a ∈ enabledBy state actions, f ∈ State.effects a.action) ∨ f ∈ state := by
  rw [successor, State.mem_foldl_apply]
  refine or_congr_left ⟨?_, ?_⟩
  · rintro ⟨b, hb, hf⟩
    obtain ⟨a, ha, rfl⟩ := List.mem_map.1 hb
    exact ⟨a, ha, hf⟩
  · rintro ⟨a, ha, hf⟩
    exact ⟨_, List.mem_map_of_mem ha, hf⟩

/-- A state only changes by getting more facts. -/
theorem exists_mem_successor_not_mem {actions : List NumberedAction} {state : State}
    (h : successor actions state ≠ state) : ∃ f, f ∈ successor actions state ∧ f ∉ state := by
  refine Classical.byContradiction fun hno => h (State.ext fun f => ?_)
  refine ⟨fun hf => Classical.byContradiction fun hn => hno ⟨f, hf, hn⟩, fun hf => ?_⟩
  exact mem_successor.2 (.inr hf)

theorem missing_successor_lt {actions : List NumberedAction} {state : State}
    (h : successor actions state ≠ state) :
    missing actions (successor actions state) < missing actions state := by
  obtain ⟨f, hf, hn⟩ := exists_mem_successor_not_mem h
  obtain ⟨a, ha, hfa⟩ := (mem_successor.1 hf).resolve_right hn
  refine countP_lt_countP (a := f) ?_ ?_ ?_ ?_
  · intro g _ hg
    simp only [decide_eq_true_eq] at hg ⊢
    exact fun hs => hg (mem_successor.2 (.inr hs))
  · exact List.mem_flatMap.2 ⟨a, (List.mem_filter.1 ha).1, hfa⟩
  · simpa using hf
  · simpa using hn

/-- The graph from `level` on, where the level has `state` and comes after the actions
`applied`. -/
def grow (actions : List NumberedAction) (level : Nat) (state : State) (applied : List Nat)
    (mutexes : MutexHistory) : PlanningGraph :=
  let layer : Layer := ⟨level, state, applied⟩
  let enabled := enabledBy state actions
  let next := successor actions state
  if enabled.isEmpty then ⟨[layer], ⟨.deadEnd, level⟩, mutexes⟩
  else if _h : next = state then ⟨[layer], ⟨.fixpoint, level⟩, mutexes⟩
  else
    let rest := grow actions (level + 1) next (enabled.map NumberedAction.id)
      (mutexes.analyse level state enabled)
    { rest with layers := layer :: rest.layers }
termination_by missing actions state
decreasing_by exact missing_successor_lt _h

def build (actions : List GroundAction) (init : List Atom) : PlanningGraph :=
  grow (NumberedAction.ofList actions) 0 (State.ofAtoms init) [] .empty

def lastLevel (g : PlanningGraph) : Nat := g.layers.length - 1

def state? (g : PlanningGraph) (level : Nat) : Option State := g.layers[level]?.map Layer.state

/-- The actions that a level enables, none for the last level. -/
def enabledAt (g : PlanningGraph) (level : Nat) : List Nat :=
  (g.layers[level + 1]?.map Layer.actions).getD []

/-- The first level at which all goals hold, whatever excludes what. -/
def goalLevel (g : PlanningGraph) (goals : List Atom) : Option Nat :=
  (g.layers.find? fun layer => goals.all layer.state.holds).map Layer.level

/-- What is reported about a level that is followed by another. What a level enables stays
enabled, so the actions enabled so far are those of the next layer. -/
def levelEvents (g : PlanningGraph) (layer next : Layer) : List Event :=
  [⟨.debug, "expanded level",
      [("level", .number layer.level), ("facts", .number layer.state.size),
        ("enabled", .number next.actions.length), ("next_facts", .number next.state.size)]⟩,
    ⟨.debug, "mutexes updated",
      [("level", .number layer.level), ("history", .number next.actions.length),
        ("inconsistent_effects", .number (g.mutexes.effects.atLevel layer.level).length),
        ("interference", .number (g.mutexes.interference.atLevel layer.level).length),
        ("inconsistent_support", .number (g.mutexes.support.atLevel layer.level).length)]⟩]

def events (g : PlanningGraph) : List Event :=
  ((g.layers.zip g.layers.tail).flatMap fun (layer, next) => g.levelEvents layer next) ++
    [⟨.info, "planning graph built",
      [("termination", .text g.termination.kind.words), ("level", .number g.termination.level),
        ("facts", .number ((g.layers.getLast?.map fun layer => layer.state.size).getD 0))]⟩]

end PlanningGraph

end StripsReach
