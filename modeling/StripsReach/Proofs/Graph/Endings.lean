import StripsReach.Proofs.Graph.Agreement

/-!
# How graphs end

A level that enables no action ends a graph, but only the first level can be one: what is enabled
stays enabled, so a graph that grows at all ends where the enabled actions change nothing. This
holds of both graphs, and the same tasks make them end at the first level.
-/

namespace StripsReach

variable {actions chosen : List GroundAction} {init : List Atom}

/-- How a graph ends: at its last level, and there in one of two ways. If no action has all that it
needs initially, `first` is its only layer. Otherwise the last layer enables some action, and is
fixed under any of the actions together. -/
structure Ending {κ : Type} (actions : List GroundAction) (init : List Atom) (first : κ)
    (enables : κ → GroundAction → Prop) (fixed : κ → List GroundAction → Prop) (layers : List κ)
    (termination : Termination) : Prop where
  length_eq : layers.length = termination.level + 1
  kind_iff : termination.kind = .deadEnd ↔ ¬ ∃ a ∈ actions, ∀ x ∈ a.needs, x ∈ init
  deadEnd : termination.kind = .deadEnd → termination.level = 0 ∧ layers = [first]
  fixpoint : termination.kind = .fixpoint → ∃ layer, layers[termination.level]? = some layer ∧
    (∃ a ∈ actions, enables layer a) ∧ ∀ chosen ⊆ actions, fixed layer chosen

/-- Whatever grows level by level ends so, if what it enables comes from the actions, and what a
step does not change they do not change. -/
theorem Growth.Levels.ending {σ κ : Type} {G : Growth σ κ} {start : σ} {layers : List κ}
    {termination : Termination} {enables : κ → GroundAction → Prop}
    {fixed : κ → List GroundAction → Prop} (h : G.Levels 0 start [] layers termination)
    (hkind : termination.kind = .deadEnd ↔ G.enabled start = [])
    (henabled : ∀ n s ids, G.enabled s ≠ [] ↔ ∃ a ∈ actions, enables (G.layer n s ids) a)
    (hstart : ∀ a, enables (G.layer 0 start []) a ↔ ∀ x ∈ a.needs, x ∈ init)
    (hfixed : ∀ n s ids, G.step s = s → ∀ chosen ⊆ actions, fixed (G.layer n s ids) chosen) :
    Ending actions init (G.layer 0 start []) enables fixed layers termination where
  length_eq := h.length_eq_level_succ
  kind_iff := by
    have hsome := henabled 0 start []
    simp only [hstart] at hsome
    rw [hkind, ← hsome, not_not]
  deadEnd hdead := by
    have hsingle := h.eq_singleton (hkind.mp hdead)
    have hlength := h.length_eq_level_succ
    rw [hsingle, List.length_singleton] at hlength
    exact ⟨by omega, hsingle⟩
  fixpoint hfix := by
    have hlast : termination.level ≤ layers.length - 1 := by
      rw [h.length_eq_level_succ, Nat.add_sub_cancel]
    have hkind : termination.kind ≠ .deadEnd := by
      rw [hfix]
      decide
    obtain ⟨hsome, hstep⟩ := h.fixpoint_at_last hkind
    exact ⟨_, h.getElem? hlast, (henabled _ _ _).mp hsome, hfixed _ _ _ hstep⟩

namespace PlanningGraph

theorem enabled_ne_nil_iff {state : State} :
    (growth (NumberedAction.ofList actions)).enabled state ≠ [] ↔
      ∃ a ∈ actions, state.enables a = true := by
  rw [← NumberedAction.exists_mem_ofList]
  simp [growth, enabledBy]

/-- What all actions together do not change, no choice of them changes. -/
theorem successor_eq_self_of_subset {state : State} (hchosen : chosen ⊆ actions)
    (hfix : successor (NumberedAction.ofList actions) state = state) :
    successor (NumberedAction.ofList chosen) state = state := by
  ext f
  constructor
  · intro hf
    rw [← hfix, mem_successor_ofList]
    rcases mem_successor_ofList.mp hf with ⟨a, ha, heffect⟩ | hold
    · exact .inl ⟨a, hchosen ha, heffect⟩
    · exact .inr hold
  · intro hf
    exact mem_successor_ofList.mpr (.inr hf)

end PlanningGraph

namespace RelaxedGraph

theorem enabled_ne_nil_iff {costs : Costs} :
    (growth (NumberedAction.ofList actions)).enabled costs ≠ [] ↔
      ∃ a ∈ actions, (costs.sum? a.needs).isSome = true := by
  rw [← NumberedAction.exists_mem_ofList]
  simp [growth, Costs.enabled, Option.isSome_iff_ne_none]

/-- Where all actions together offer nothing cheaper, no choice of them does. -/
theorem successor_eq_self_of_subset {costs : Costs} (hchosen : chosen ⊆ actions)
    (hfix : Costs.successor (NumberedAction.ofList actions) costs = costs) :
    Costs.successor (NumberedAction.ofList chosen) costs = costs := by
  apply Std.ExtTreeMap.ext_getElem?
  intro x
  have hall := Costs.leastOf_successor actions costs x
  rw [hfix] at hall
  apply (Costs.leastOf_successor chosen costs x).unique
  apply (LeastOf.of_some costs[x]?).of_subset Set.subset_union_left
  intro v hv
  rcases hv with hknown | ⟨a, ha, hoffer⟩
  · exact ⟨v, hknown, le_rfl⟩
  · obtain ⟨known, hknown, hle⟩ := hall.exists_le (.inr ⟨a, hchosen ha, hoffer⟩)
    exact ⟨known, hknown, hle⟩

end RelaxedGraph

/-- Both graphs end at their last level, and with a dead end only at level zero: then there is no
level but that of the initial atoms, which enables no action. Otherwise they end with a fixpoint,
at a level that enables some action and that no actions change. -/
theorem graphs_end (actions : List GroundAction) (init : List Atom) :
    Ending actions init ⟨0, .ofAtoms init, []⟩ (fun layer a => layer.state.enables a = true)
      (fun layer chosen =>
        PlanningGraph.successor (NumberedAction.ofList chosen) layer.state = layer.state)
      (PlanningGraph.build actions init).layers (PlanningGraph.build actions init).termination ∧
    Ending actions init ⟨0, .ofAtoms init, []⟩
      (fun layer a => (layer.costs.sum? a.needs).isSome = true)
      (fun layer chosen => Costs.successor (NumberedAction.ofList chosen) layer.costs = layer.costs)
      (RelaxedGraph.build actions init).layers (RelaxedGraph.build actions init).termination := by
  constructor
  · apply (PlanningGraph.levels_build actions init).ending
    · exact PlanningGraph.kind_eq_deadEnd_iff
    · intro n state ids
      exact PlanningGraph.enabled_ne_nil_iff
    · intro a
      have hinitial : ∀ x, Fact.holding x ∈ State.ofAtoms init ↔ x ∈ init := by
        simp [State.mem_ofAtoms, Fact.holding]
      exact State.enables_iff.trans (forall₂_congr fun x _ => hinitial x)
    · intro n state ids hfix chosen hchosen
      exact PlanningGraph.successor_eq_self_of_subset hchosen hfix
  · apply (RelaxedGraph.levels_build actions init).ending
    · have hkind : (RelaxedGraph.build actions init).termination.kind = .deadEnd ↔
          PlanningGraph.levelApplied actions init 1 = [] := RelaxedGraph.kind_eq_deadEnd_iff
      rwa [← RelaxedGraph.levelApplied_eq_planning] at hkind
    · intro n costs ids
      exact RelaxedGraph.enabled_ne_nil_iff
    · intro a
      have hinitial : ((RelaxedGraph.levelCosts actions init 0).sum? a.needs).isSome = true ↔
          ∀ x ∈ a.needs, DerivableWithin actions init 0 x := RelaxedGraph.isSome_sum?_levelCosts_iff
      simp only [derivableWithin_zero_iff] at hinitial
      exact hinitial
    · intro n costs ids hfix chosen hchosen
      exact RelaxedGraph.successor_eq_self_of_subset hchosen hfix

open PlanningGraph.Door

/-- Nobody leaves through a locked door, so the graph stays at the first level. Where it can be
unlocked, the last level is one that entering does not change any more. -/
theorem graphs_end_door :
    (PlanningGraph.build [leave] [key]).layers = [⟨0, .ofAtoms [key], []⟩] ∧
    ∃ layer, (PlanningGraph.build [unlock, enter] [key]).layers[2]? = some layer ∧
      PlanningGraph.successor (NumberedAction.ofList [enter]) layer.state = layer.state := by
  have hdead : (PlanningGraph.build [leave] [key]).termination.kind = .deadEnd := by
    decide +kernel
  have hfix : (PlanningGraph.build [unlock, enter] [key]).termination = ⟨.fixpoint, 2⟩ := by
    decide +kernel
  obtain ⟨layer, hlayer, -, hfixed⟩ :=
    (graphs_end [unlock, enter] [key]).1.fixpoint (congrArg Termination.kind hfix)
  rw [hfix] at hlayer
  exact ⟨((graphs_end [leave] [key]).1.deadEnd hdead).2, layer, hlayer, hfixed [enter] (by simp)⟩

end StripsReach
