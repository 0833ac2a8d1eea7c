import Mathlib.Order.Bounds.Basic
import StripsReach.Proofs.Graph.Levels

/-!
# Every level of a planning graph enables a new action

The facts of a level that the level before lacks are effects of actions enabled there, and the
effects of all that was enabled earlier are in the state already. So one of these actions was
never enabled before, and there are no more levels than actions, however many facts there are.
-/

namespace StripsReach.PlanningGraph

/-- That expansion ends at the state: it enables no action, or those it enables change nothing. -/
def Stops (actions : List NumberedAction) (state : State) : Prop :=
  enabledBy state actions = [] ∨ successor actions state = state

variable (actions : List GroundAction) (init : List Atom)

/-- Expanded again and again, the states come to one where expansion ends, and the graph has the
levels up to the first such state. -/
theorem isLeast_stops_build :
    IsLeast {n | Stops (NumberedAction.ofList actions) (levelState actions init n)}
      (build actions init).lastLevel := by
  have hstops := (levels_build actions init).isLeast_stops
  simp only [growth, List.map_eq_nil_iff] at hstops
  exact hstops

variable {actions init} {n : Nat}

theorem exists_new_fact (hn : n < (build actions init).lastLevel) :
    ∃ f, f ∈ levelState actions init (n + 1) ∧ f ∉ levelState actions init n := by
  have hchanges := (levels_build actions init).stops.changes n hn
  rw [Function.iterate_succ_apply'] at hchanges
  have hnew := exists_mem_successor_not_mem hchanges
  rwa [levelState, stateAfter_succ]

/-- An action that was enabled earlier has all its effects in the state, so the action that a new
fact comes from was not. -/
theorem exists_newly_enabled (hn : n < (build actions init).lastLevel) :
    ∃ a ∈ levelEnabled actions init n, ∀ k < n, a ∉ levelEnabled actions init k := by
  obtain ⟨f, hf, hnew⟩ := exists_new_fact hn
  obtain ⟨a, ha, hfa⟩ := ((mem_levelState_succ actions init).mp hf).resolve_right hnew
  refine ⟨a, ha, fun k hk hearlier => hnew ?_⟩
  have hbefore : f ∈ levelState actions init (k + 1) :=
    (mem_levelState_succ actions init).mpr (.inl ⟨a, hearlier, hfa⟩)
  exact mem_stateAfter_of_le hk hbefore

/-- What is enabled stays enabled, and a new action makes it more. -/
theorem length_levelEnabled_lt_succ (hn : n + 1 < (build actions init).lastLevel) :
    (levelEnabled actions init n).length < (levelEnabled actions init (n + 1)).length := by
  obtain ⟨a, ha, hnew⟩ := exists_newly_enabled hn
  obtain ⟨hlist, henabled⟩ := List.mem_filter.mp ha
  have hdisabled : (levelState actions init n).enables a.action = false := by
    rw [Bool.eq_false_iff]
    exact fun h => hnew n (Nat.lt_succ_self n) (List.mem_filter.mpr ⟨hlist, h⟩)
  have hkept : ∀ b ∈ NumberedAction.ofList actions,
      (levelState actions init n).enables b.action = true →
        (levelState actions init (n + 1)).enables b.action = true := by
    intro b hb h
    have hmem : b ∈ levelEnabled actions init n := List.mem_filter.mpr ⟨hb, h⟩
    exact (List.mem_filter.mp (mem_enabledBy_of_le (Nat.le_succ n) hmem)).2
  simp only [levelEnabled, enabledBy, ← List.countP_eq_length_filter]
  exact countP_lt_countP hkept hlist hdisabled henabled

theorem lt_length_levelEnabled (hn : n < (build actions init).lastLevel) :
    n < (levelEnabled actions init n).length := by
  induction n with
  | zero =>
    obtain ⟨a, ha, -⟩ := exists_newly_enabled hn
    exact List.length_pos_of_mem ha
  | succ n ih =>
    have hmore := length_levelEnabled_lt_succ hn
    have hbefore := ih (by omega)
    omega

theorem lastLevel_le_length : (build actions init).lastLevel ≤ actions.length := by
  by_contra hlt
  have hlong := lt_length_levelEnabled (Nat.lt_of_not_le hlt)
  have hall : (levelEnabled actions init actions.length).length ≤ actions.length := by
    refine (List.length_filter_le _ _).trans ?_
    simp [NumberedAction.ofList]
  omega

/-- The numbers of a level tell whether an action is new as well as the actions do. -/
theorem exists_new_number (hn : n < (build actions init).lastLevel) :
    ∃ i ∈ (build actions init).enabledAt n, ∀ k < n, i ∉ (build actions init).enabledAt k := by
  obtain ⟨a, ha, hnew⟩ := exists_newly_enabled hn
  refine ⟨a.id, ?_, fun k hk hearlier => ?_⟩
  · rw [enabledAt_build actions init hn]
    exact List.mem_map_of_mem ha
  · rw [enabledAt_build actions init (hk.trans hn)] at hearlier
    obtain ⟨b, hb, hid⟩ := List.mem_map.mp hearlier
    obtain rfl := NumberedAction.eq_of_id_eq (List.mem_filter.mp hb).1 (List.mem_filter.mp ha).1 hid
    exact hnew k hk hb

/-- Expansion ends, and the graph has a level for every state before the first at which it does.
From each level to the next facts come and none goes, every level but the last enables an action
that no earlier level enables, and so there are at most as many steps as actions. -/
theorem expansion_ends (actions : List GroundAction) (init : List Atom) :
    IsLeast {n | Stops (NumberedAction.ofList actions) (levelState actions init n)}
      (build actions init).lastLevel ∧
    (∀ n < (build actions init).lastLevel, ∃ state next,
      (build actions init).state? n = some state ∧
      (build actions init).state? (n + 1) = some next ∧
      (∀ f ∈ state, f ∈ next) ∧ ∃ f ∈ next, f ∉ state) ∧
    (∀ n < (build actions init).lastLevel, ∃ i ∈ (build actions init).enabledAt n,
      ∀ k < n, i ∉ (build actions init).enabledAt k) ∧
    (build actions init).lastLevel ≤ actions.length := by
  refine ⟨isLeast_stops_build actions init, fun n hn => ?_, fun n hn => exists_new_number hn,
    lastLevel_le_length⟩
  obtain ⟨f, hf, hnew⟩ := exists_new_fact hn
  refine ⟨_, _, state?_build actions init hn.le, state?_build actions init hn, ?_, f, hf, hnew⟩
  exact fun g hg => mem_stateAfter_of_le (Nat.le_succ n) hg

open Door in
/-- Two actions, each enabled one level after the other, make a graph of two steps. -/
theorem expansion_ends_door :
    1 < (build [unlock, enter] [key]).lastLevel ∧
    (∃ i ∈ (build [unlock, enter] [key]).enabledAt 1,
      i ∉ (build [unlock, enter] [key]).enabledAt 0) ∧
    (build [unlock, enter] [key]).lastLevel ≤ 2 := by
  have hlast : 1 < (build [unlock, enter] [key]).lastLevel := by decide +kernel
  obtain ⟨-, -, hnew, hbound⟩ := expansion_ends [unlock, enter] [key]
  obtain ⟨i, hi, hearlier⟩ := hnew 1 hlast
  exact ⟨hlast, ⟨i, hi, hearlier 0 (by omega)⟩, hbound⟩

end StripsReach.PlanningGraph
