import StripsReach.Graph.Relaxed
import StripsReach.Proofs.Graph.Growth

/-!
# The levels of a relaxed planning graph

The costs of level `n` are those after offering the enabled actions `n` times, up to the level
after which nothing changes.
-/

namespace StripsReach.RelaxedGraph

theorem enabled_eq_nil_iff {actions : List NumberedAction} {costs : Costs} :
    (costs.enabled actions).map (fun a => a.1.id) = [] ↔ (costs.enabled actions).isEmpty = true := by
  rw [List.map_eq_nil_iff, List.isEmpty_iff]

/-- The growth of a relaxed planning graph over the actions. -/
def growth (actions : List NumberedAction) : Growth Costs RelaxedLayer where
  step := Costs.successor actions
  enabled := fun costs => (costs.enabled actions).map fun a => a.1.id
  layer := RelaxedLayer.mk
  step_eq_self := by
    intro costs h
    rw [Costs.successor, List.map_eq_nil_iff.mp h, Costs.offerAll, List.foldl_nil]

theorem levels_grow (actions : List NumberedAction) (level : Nat) (start : Costs)
    (applied : List Nat) :
    (growth actions).Levels level start applied (grow actions level start applied).layers
      (grow actions level start applied).termination := by
  fun_induction grow actions level start applied with
  | case1 level start applied layer enabled hempty =>
    exact Growth.levels_deadEnd (enabled_eq_nil_iff.mpr hempty)
  | case2 level start applied layer enabled next hempty hfix =>
    exact Growth.levels_fixpoint (fun hnil => hempty (enabled_eq_nil_iff.mp hnil)) hfix
  | case3 level start applied layer enabled next hempty hne rest ih =>
    exact ih.cons (fun hnil => hempty (enabled_eq_nil_iff.mp hnil)) hne

section Build

variable (actions : List GroundAction) (init : List Atom)

/-- The number of the last level. -/
def lastLevel (g : RelaxedGraph) : Nat := g.layers.length - 1

/-- The costs of level `n`, and of any later level if there is none. -/
def levelCosts (n : Nat) : Costs :=
  (Costs.successor (NumberedAction.ofList actions))^[n] (Costs.ofAtoms init)

theorem levels_build : (growth (NumberedAction.ofList actions)).Levels 0 (Costs.ofAtoms init) []
    (build actions init).layers (build actions init).termination :=
  levels_grow _ _ _ _

/-- The numbers of the actions that level `n` is listed with. -/
def levelApplied (n : Nat) : List Nat :=
  (growth (NumberedAction.ofList actions)).appliedAt (Costs.ofAtoms init) [] n

theorem getElem?_layers_build {n : Nat} (hn : n ≤ (build actions init).lastLevel) :
    (build actions init).layers[n]? =
      some ⟨n, levelCosts actions init n, levelApplied actions init n⟩ :=
  (levels_build actions init).getElem? hn

theorem applied_eq {n : Nat} {layer : RelaxedLayer}
    (h : (build actions init).layers[n]? = some layer) :
    layer.actions = levelApplied actions init n := by
  rw [(levels_build actions init).layer_eq h]
  rfl

theorem layer_eq {n : Nat} {layer : RelaxedLayer}
    (h : (build actions init).layers[n]? = some layer) :
    layer.level = n ∧ layer.costs = levelCosts actions init n := by
  rw [(levels_build actions init).layer_eq h]
  exact ⟨rfl, rfl⟩

theorem finalCosts_build :
    (build actions init).finalCosts = levelCosts actions init (build actions init).lastLevel := by
  rw [finalCosts, List.getLast?_eq_getElem?]
  change (Option.map _ (build actions init).layers[(build actions init).lastLevel]?).getD ∅ = _
  rw [getElem?_layers_build actions init (Nat.le_refl _)]
  rfl

theorem levelCosts_of_le {n : Nat} (hn : (build actions init).lastLevel ≤ n) :
    levelCosts actions init n = levelCosts actions init (build actions init).lastLevel :=
  (levels_build actions init).stops.iterate_of_le hn

theorem levelCosts_succ (n : Nat) :
    levelCosts actions init (n + 1) =
      Costs.successor (NumberedAction.ofList actions) (levelCosts actions init n) :=
  Function.iterate_succ_apply' _ _ _

end Build

end StripsReach.RelaxedGraph
