import StripsReach.Proofs.Graph.AdditiveCost
import StripsReach.Proofs.Graph.DerivedLevels

/-!
# The two graphs agree

The planning graph may go on because of a new deletion, and the relaxed graph because a cost still
falls, so either may outlast the other. Both reach an atom at the depth of its shallowest
derivation, though, and so they have the same atoms and actions at every level that both have,
the same first level for any goals, and the same reason to have no actions at all.
-/

namespace StripsReach

variable {actions : List GroundAction} {init : List Atom}

namespace Costs

/-- The actions that costs enable, in the order in which they are given. -/
theorem map_fst_enabled (costs : Costs) (acts : List NumberedAction) :
    (costs.enabled acts).map Prod.fst =
      acts.filter fun a => (costs.sum? a.action.needs).isSome := by
  induction acts with
  | nil => rfl
  | cons a acts ih =>
    rw [enabled] at ih
    rw [enabled, List.filterMap_cons, List.filter_cons]
    cases costs.sum? a.action.needs with
    | none => simpa using ih
    | some cost => simpa using ih

end Costs

namespace PlanningGraph

theorem holds_layer_iff {n : Nat} {layer : Layer}
    (h : (build actions init).layers[n]? = some layer) {x : Atom} :
    layer.state.holds x = true ↔ DerivableWithin actions init n x := by
  rw [layer_eq actions init h, holds_levelState_iff]

theorem leastOf_goalLevel_derivable (goals : List Atom) :
    LeastOf ((build actions init).goalLevel goals)
      {n | ∀ x ∈ goals, DerivableWithin actions init n x} := by
  have hleast := leastOf_goalLevel actions init goals
  simpa only [holding_mem_levelState_iff] using hleast

theorem isSome_goalLevel_iff {goals : List Atom} :
    ((build actions init).goalLevel goals).isSome = true ↔
      ∀ x ∈ goals, Derivable actions init x := by
  rw [(leastOf_goalLevel_derivable goals).isSome_iff]
  constructor
  · rintro ⟨n, hn⟩ x hx
    exact derivable_iff_exists_within.mpr ⟨n, hn x hx⟩
  · intro h
    exact ⟨_, fun x hx => (derivable_iff_within_lastLevel actions init).mp (h x hx)⟩

/-- What is applied before level one is applied before every later level too. -/
theorem levelApplied_one_subset (n : Nat) :
    levelApplied actions init 1 ⊆ levelApplied actions init (n + 1) := by
  intro i hi
  rw [mem_levelApplied_iff] at hi ⊢
  obtain ⟨-, a, ha, henabled⟩ := hi
  exact ⟨by omega, a, ha, henabled.mono (by omega)⟩

theorem kind_eq_deadEnd_iff :
    (build actions init).termination.kind = .deadEnd ↔ levelApplied actions init 1 = [] :=
  (levels_build actions init).kind_eq_deadEnd_iff levelApplied_one_subset

end PlanningGraph

namespace RelaxedGraph

theorem isSome_levelCosts_iff {n : Nat} {x : Atom} :
    (levelCosts actions init n)[x]?.isSome = true ↔ DerivableWithin actions init n x := by
  rw [(leastOf_levelCosts n x).isSome_iff, Set.image_nonempty, costsWithin_nonempty_iff]

theorem contains_layer_iff {n : Nat} {layer : RelaxedLayer}
    (h : (build actions init).layers[n]? = some layer) {x : Atom} :
    layer.costs.contains x = true ↔ DerivableWithin actions init n x := by
  rw [(layer_eq actions init h).2, Std.ExtTreeMap.contains_eq_isSome_getElem?,
    isSome_levelCosts_iff]

theorem isSome_sum?_levelCosts_iff {n : Nat} {atoms : List Atom} :
    ((levelCosts actions init n).sum? atoms).isSome = true ↔
      ∀ x ∈ atoms, DerivableWithin actions init n x := by
  have hsum : LeastOf ((levelCosts actions init n).sum? atoms)
      (capped '' sumsOf (costsWithin actions init n) atoms) :=
    Costs.leastOf_sum? fun x _ => leastOf_levelCosts n x
  rw [hsum.isSome_iff, Set.image_nonempty, sumsOf_nonempty_iff]
  simp only [costsWithin_nonempty_iff]

theorem isSome_goalValue_iff {goals : List Atom} :
    ((build actions init).goalValue goals).isSome = true ↔
      ∀ x ∈ goals, Derivable actions init x := by
  rw [(leastOf_goalValue goals).isSome_iff, Set.image_nonempty, sumsOf_nonempty_iff]
  simp only [derivationCosts_nonempty_iff]

theorem leastOf_goalLevel (goals : List Atom) :
    LeastOf ((build actions init).goalLevel goals)
      {n | ∀ x ∈ goals, DerivableWithin actions init n x} := by
  have hleast := (levels_build actions init).leastOf_find?
    (fun layer => goals.all layer.costs.contains) RelaxedLayer.level
    (fun costs => ∀ x ∈ goals, costs[x]?.isSome = true) (fun _ _ _ => rfl) (fun n costs ids => by
      simp only [growth, List.all_eq_true, Std.ExtTreeMap.contains_eq_isSome_getElem?])
  have hset : {n | ∀ x ∈ goals, (levelCosts actions init n)[x]?.isSome = true} =
      {n | ∀ x ∈ goals, DerivableWithin actions init n x} := by
    simp only [isSome_levelCosts_iff]
  rw [← hset]
  exact hleast

/-- Both graphs list the same actions at a level. -/
theorem levelApplied_eq_planning (n : Nat) :
    levelApplied actions init n = PlanningGraph.levelApplied actions init n := by
  cases n with
  | zero => rfl
  | succ n =>
    have hids : levelApplied actions init (n + 1) =
        (((levelCosts actions init n).enabled (NumberedAction.ofList actions)).map Prod.fst).map
          NumberedAction.id := by
      rw [List.map_map]
      rfl
    rw [hids, Costs.map_fst_enabled, PlanningGraph.levelApplied_succ]
    refine congrArg _ (List.filter_congr fun a _ => ?_)
    rw [Bool.eq_iff_iff, isSome_sum?_levelCosts_iff, State.enables_iff]
    simp only [PlanningGraph.holding_mem_levelState_iff]

theorem kind_eq_deadEnd_iff :
    (build actions init).termination.kind = .deadEnd ↔
      PlanningGraph.levelApplied actions init 1 = [] := by
  rw [← levelApplied_eq_planning]
  refine (levels_build actions init).kind_eq_deadEnd_iff fun n => ?_
  change levelApplied actions init 1 ⊆ levelApplied actions init (n + 1)
  rw [levelApplied_eq_planning, levelApplied_eq_planning]
  exact PlanningGraph.levelApplied_one_subset n

end RelaxedGraph

/-- The planning graph and the relaxed graph say the same about what is reached. At a level that
both have, the same atoms hold and the same actions were applied. Both lack actions or neither
does. Goals have the same level in both, and a value iff they have a level, from which on every
level of either graph has them all. -/
theorem planning_agrees_with_relaxed (actions : List GroundAction) (init : List Atom) :
    (∀ (n : Nat) (layer : Layer) (relaxed : RelaxedLayer),
      (PlanningGraph.build actions init).layers[n]? = some layer →
      (RelaxedGraph.build actions init).layers[n]? = some relaxed →
      (∀ x, layer.state.holds x = relaxed.costs.contains x) ∧ layer.actions = relaxed.actions) ∧
    ((PlanningGraph.build actions init).termination.kind = .deadEnd ↔
      (RelaxedGraph.build actions init).termination.kind = .deadEnd) ∧
    ∀ goals,
      (PlanningGraph.build actions init).goalLevel goals =
        (RelaxedGraph.build actions init).goalLevel goals ∧
      ((RelaxedGraph.build actions init).goalValue goals).isSome =
        ((PlanningGraph.build actions init).goalLevel goals).isSome ∧
      ∀ level, (PlanningGraph.build actions init).goalLevel goals = some level →
        ∀ n ≥ level,
          (∀ layer, (PlanningGraph.build actions init).layers[n]? = some layer →
            ∀ x ∈ goals, layer.state.holds x = true) ∧
          ∀ relaxed, (RelaxedGraph.build actions init).layers[n]? = some relaxed →
            ∀ x ∈ goals, relaxed.costs.contains x = true := by
  refine ⟨?_, ?_, fun goals => ⟨?_, ?_, ?_⟩⟩
  · intro n layer relaxed hlayer hrelaxed
    constructor
    · intro x
      rw [Bool.eq_iff_iff, PlanningGraph.holds_layer_iff hlayer,
        RelaxedGraph.contains_layer_iff hrelaxed]
    · rw [PlanningGraph.layer_eq actions init hlayer, RelaxedGraph.applied_eq actions init hrelaxed,
        RelaxedGraph.levelApplied_eq_planning]
  · rw [PlanningGraph.kind_eq_deadEnd_iff, RelaxedGraph.kind_eq_deadEnd_iff]
  · exact (PlanningGraph.leastOf_goalLevel_derivable goals).unique
      (RelaxedGraph.leastOf_goalLevel goals)
  · rw [Bool.eq_iff_iff, RelaxedGraph.isSome_goalValue_iff, PlanningGraph.isSome_goalLevel_iff]
  · intro level hlevel n hn
    have hgoals : ∀ x ∈ goals, DerivableWithin actions init n x := fun x hx =>
      ((PlanningGraph.leastOf_goalLevel_derivable goals).mem hlevel x hx).mono hn
    constructor
    · exact fun _ hlayer x hx => (PlanningGraph.holds_layer_iff hlayer).mpr (hgoals x hx)
    · exact fun _ hrelaxed x hx => (RelaxedGraph.contains_layer_iff hrelaxed).mpr (hgoals x hx)

open PlanningGraph.Door

/-- Who leaves through the open door leaves the key inside and gains nothing. -/
def leave : GroundAction := ⟨"leave", [], ⟨[unlocked], []⟩, ⟨[], [key]⟩, 1⟩

/-- Leaving deletes something and adds nothing, so only the planning graph goes on to level two.
The goal that both have at level one still holds there. -/
theorem planning_agrees_with_relaxed_leave :
    (PlanningGraph.build [unlock, leave] [key]).lastLevel = 2 ∧
    (RelaxedGraph.build [unlock, leave] [key]).lastLevel = 1 ∧
    (RelaxedGraph.build [unlock, leave] [key]).goalLevel [unlocked] = some 1 ∧
    ∃ layer, (PlanningGraph.build [unlock, leave] [key]).layers[2]? = some layer ∧
      layer.state.holds unlocked = true := by
  have hlast : (PlanningGraph.build [unlock, leave] [key]).lastLevel = 2 := by decide +kernel
  have hgoal : (PlanningGraph.build [unlock, leave] [key]).goalLevel [unlocked] = some 1 := by
    decide +kernel
  obtain ⟨-, -, hgoals⟩ := planning_agrees_with_relaxed [unlock, leave] [key]
  obtain ⟨hsame, -, hlater⟩ := hgoals [unlocked]
  have hlayer := PlanningGraph.getElem?_layers_build [unlock, leave] [key] hlast.ge
  refine ⟨hlast, by decide +kernel, hsame ▸ hgoal, _, hlayer, ?_⟩
  exact (hlater 1 hgoal 2 (by omega)).1 _ hlayer unlocked (by simp)

end StripsReach
