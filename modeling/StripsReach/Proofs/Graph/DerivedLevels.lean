import StripsReach.Proofs.Graph.Depth
import StripsReach.Proofs.Graph.Levels

/-!
# The levels of a planning graph by derivation depth

What holds at a level is what has a derivation no deeper than the level: no atom comes too early,
and none too late. The actions before a level are those that all their needs are derived for one
level earlier, and a deletion is on record iff one of these deletes. The last level has all that
can be derived at any depth, whichever way the graph ended.
-/

namespace StripsReach.PlanningGraph

variable (actions : List GroundAction) (init : List Atom)

/-- Level by level: what the enabled actions add is what one more action derives. -/
theorem holding_mem_levelState_iff {n : Nat} {x : Atom} :
    Fact.holding x ∈ levelState actions init n ↔ DerivableWithin actions init n x := by
  induction n generalizing x with
  | zero =>
    rw [mem_levelState_zero, derivableWithin_zero_iff]
    simp [Fact.holding]
  | succ n ih =>
    rw [mem_levelState_succ_iff, derivableWithin_succ_iff]
    simp only [State.holding_mem_effects, ih, EnabledWithin]

theorem holds_levelState_iff {n : Nat} {x : Atom} :
    (levelState actions init n).holds x = true ↔ DerivableWithin actions init n x := by
  rw [State.holds_iff, holding_mem_levelState_iff]

theorem mem_levelEnabled_iff {n : Nat} {a : NumberedAction} :
    a ∈ levelEnabled actions init n ↔
      actions[a.id]? = some a.action ∧ EnabledWithin actions init n a.action := by
  rw [levelEnabled, mem_enabledBy, NumberedAction.mem_ofList]
  simp only [holding_mem_levelState_iff, EnabledWithin]

theorem deleted_not_mem_levelState_zero {x : Atom} :
    Fact.deleted x ∉ levelState actions init 0 := by
  rw [mem_levelState_zero]
  simp [Fact.deleted, Fact.holding]

/-- A deletion stays on record, and the action that made it stays enabled. -/
theorem deleted_mem_levelState_succ_iff {n : Nat} {x : Atom} :
    Fact.deleted x ∈ levelState actions init (n + 1) ↔
      ∃ a ∈ actions, EnabledWithin actions init n a ∧ x ∈ a.deletes := by
  induction n with
  | zero =>
    rw [mem_levelState_succ_iff, or_iff_left (deleted_not_mem_levelState_zero actions init)]
    simp only [State.deleted_mem_effects, holding_mem_levelState_iff, EnabledWithin]
  | succ n ih =>
    rw [mem_levelState_succ_iff, ih]
    simp only [State.deleted_mem_effects, holding_mem_levelState_iff]
    constructor
    · rintro (h | ⟨a, ha, henabled, hx⟩)
      · exact h
      · exact ⟨a, ha, henabled.mono (Nat.le_succ n), hx⟩
    · exact .inl

theorem deleted_mem_levelState_iff {n : Nat} {x : Atom} :
    Fact.deleted x ∈ levelState actions init n ↔
      1 ≤ n ∧ ∃ a ∈ actions, EnabledWithin actions init (n - 1) a ∧ x ∈ a.deletes := by
  cases n with
  | zero => simp [deleted_not_mem_levelState_zero]
  | succ n => simp [deleted_mem_levelState_succ_iff]

theorem mem_levelApplied_iff {n i : Nat} :
    i ∈ levelApplied actions init n ↔
      1 ≤ n ∧ ∃ a, actions[i]? = some a ∧ EnabledWithin actions init (n - 1) a := by
  cases n with
  | zero => simp [levelApplied, Growth.appliedAt]
  | succ n =>
    rw [levelApplied_succ, List.mem_map]
    simp only [mem_levelEnabled_iff, Nat.add_sub_cancel, Nat.le_add_left, true_and]
    constructor
    · rintro ⟨a, ha, rfl⟩
      exact ⟨a.action, ha⟩
    · rintro ⟨a, ha⟩
      exact ⟨⟨i, a⟩, ha, rfl⟩

theorem pairwise_levelApplied (n : Nat) : (levelApplied actions init n).Pairwise (· < ·) := by
  cases n with
  | zero => exact List.Pairwise.nil
  | succ n =>
    rw [levelApplied_succ, List.pairwise_map]
    exact (NumberedAction.pairwise_id_lt_ofList actions).filter _

/-- A deeper derivation than the last level is never needed. -/
theorem derivable_iff_within_lastLevel {x : Atom} :
    Derivable actions init x ↔
      DerivableWithin actions init (build actions init).lastLevel x := by
  rw [derivable_iff_exists_within]
  constructor
  · rintro ⟨n, h⟩
    rw [← holding_mem_levelState_iff, ← levelState_min] at h
    exact ((holding_mem_levelState_iff actions init).mp h).mono (Nat.min_le_right _ _)
  · exact fun h => ⟨_, h⟩

theorem deleted_mem_lastLevel_iff {x : Atom} :
    Fact.deleted x ∈ levelState actions init (build actions init).lastLevel ↔
      ∃ a ∈ actions, (∀ y ∈ a.needs, Derivable actions init y) ∧ x ∈ a.deletes := by
  have hfixed := levelState_min actions init ((build actions init).lastLevel + 1)
  rw [Nat.min_eq_right (Nat.le_succ _)] at hfixed
  rw [hfixed, deleted_mem_levelState_succ_iff]
  simp only [EnabledWithin, derivable_iff_within_lastLevel]

/-- The graph in closed form. At a level stand the atoms derived within it, the deletions by
actions enabled before it and, in ascending order, the numbers of those actions. At the last level
no bound on the depth is left. -/
theorem levels_eq_derivations (actions : List GroundAction) (init : List Atom) :
    (∀ n ≤ (build actions init).lastLevel, ∃ layer,
      (build actions init).layers[n]? = some layer ∧ layer.level = n ∧
      (∀ x, layer.state.holds x = true ↔ DerivableWithin actions init n x) ∧
      (∀ x, Fact.deleted x ∈ layer.state ↔
        1 ≤ n ∧ ∃ a ∈ actions, EnabledWithin actions init (n - 1) a ∧ x ∈ a.deletes) ∧
      layer.actions.Pairwise (· < ·) ∧
      ∀ i, i ∈ layer.actions ↔
        1 ≤ n ∧ ∃ a, actions[i]? = some a ∧ EnabledWithin actions init (n - 1) a) ∧
    ∃ state, (build actions init).state? (build actions init).lastLevel = some state ∧
      (∀ x, state.holds x = true ↔ Derivable actions init x) ∧
      ∀ x, Fact.deleted x ∈ state ↔
        ∃ a ∈ actions, (∀ y ∈ a.needs, Derivable actions init y) ∧ x ∈ a.deletes := by
  constructor
  · intro n hn
    exact ⟨_, getElem?_layers_build actions init hn, rfl,
      fun x => holds_levelState_iff actions init, fun x => deleted_mem_levelState_iff actions init,
      pairwise_levelApplied actions init n, fun i => mem_levelApplied_iff actions init⟩
  · refine ⟨_, state?_build actions init le_rfl, fun x => ?_, fun x => ?_⟩
    · rw [holds_levelState_iff, derivable_iff_within_lastLevel]
    · exact deleted_mem_lastLevel_iff actions init

open Door in
/-- Entering needs the unlocked door, which one action derives, so at level two the key is on
record as left behind. -/
theorem levels_eq_derivations_door :
    2 ≤ (build [unlock, enter] [key]).lastLevel ∧
    ∃ layer, (build [unlock, enter] [key]).layers[2]? = some layer ∧
      Fact.deleted key ∈ layer.state ∧ 1 ∈ layer.actions := by
  have hlast : 2 ≤ (build [unlock, enter] [key]).lastLevel := by decide +kernel
  have hunlock : EnabledWithin [unlock, enter] [key] 0 unlock := by
    simp [EnabledWithin, derivableWithin_zero_iff, unlock, GroundAction.needs]
  have hunlocked : DerivableWithin [unlock, enter] [key] 1 unlocked :=
    derivableWithin_succ_iff.mpr
      (.inl ⟨unlock, by simp, hunlock, by simp [unlock, GroundAction.adds]⟩)
  have henter : EnabledWithin [unlock, enter] [key] 1 enter := by
    simpa [EnabledWithin, enter, GroundAction.needs] using hunlocked
  obtain ⟨layer, hlayer, -, -, hdeleted, -, happlied⟩ :=
    (levels_eq_derivations [unlock, enter] [key]).1 2 hlast
  refine ⟨hlast, layer, hlayer, ?_, (happlied 1).mpr ⟨by omega, enter, rfl, henter⟩⟩
  exact (hdeleted key).mpr
    ⟨by omega, enter, by simp, henter, by simp [enter, GroundAction.deletes]⟩

end StripsReach.PlanningGraph
