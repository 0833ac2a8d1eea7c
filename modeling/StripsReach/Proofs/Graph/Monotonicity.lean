import StripsReach.Proofs.Graph.Agreement
import StripsReach.Proofs.Graph.SettledCosts

/-!
# Graphs of larger tasks

With more actions and more initial atoms nothing gets lost and nothing gets dearer. The graphs of
the two tasks cannot be compared level by level: they may be of different lengths, and an atom may
come from other actions at other levels. But every derivation in the smaller task is one in the
larger, and both graphs say what derivations there are.
-/

namespace StripsReach

variable {actions more : List GroundAction} {init start : List Atom}

section More

variable (hactions : actions ⊆ more) (hinit : init ⊆ start)
include hactions hinit

theorem costsWithin_subset_of_more (n : Nat) (x : Atom) :
    costsWithin actions init n x ⊆ costsWithin more start n x := by
  induction n generalizing x with
  | zero =>
    intro cost hcost
    obtain ⟨hx, rfl⟩ := mem_costsWithin_zero.mp hcost
    exact mem_costsWithin_zero.mpr ⟨hinit hx, rfl⟩
  | succ n ih =>
    intro cost hcost
    apply mem_costsWithin_succ.mpr
    rcases mem_costsWithin_succ.mp hcost with ⟨hx, hzero⟩ | ⟨a, ha, hx, sum, hsum, heq⟩
    · exact .inl ⟨hinit hx, hzero⟩
    · have hlarger : sum ∈ sumsOf (costsWithin more start n) a.needs :=
        sumsOf_mono (fun y _ => ih y) hsum
      exact .inr ⟨a, hactions ha, hx, sum, hlarger, heq⟩

theorem derivationCosts_subset_of_more (x : Atom) :
    derivationCosts actions init x ⊆ derivationCosts more start x := by
  intro cost hcost
  obtain ⟨n, hn⟩ := mem_derivationCosts_iff.mp hcost
  exact mem_derivationCosts_iff.mpr ⟨n, costsWithin_subset_of_more hactions hinit n x hn⟩

theorem DerivableWithin.of_more {n : Nat} {x : Atom} (h : DerivableWithin actions init n x) :
    DerivableWithin more start n x := by
  rw [← costsWithin_nonempty_iff] at h ⊢
  exact h.mono (costsWithin_subset_of_more hactions hinit n x)

/-- The first level of goals is a least number in either graph, here one of a larger set. -/
theorem goalLevel_le_of_more {goals : List Atom} {level larger : Option Nat}
    (hlevel : LeastOf level {n | ∀ x ∈ goals, DerivableWithin actions init n x})
    (hlarger : LeastOf larger {n | ∀ x ∈ goals, DerivableWithin more start n x}) :
    ∀ n, level = some n → ∃ k ≤ n, larger = some k := by
  intro n hn
  refine hlevel.exists_le_of_subset hlarger ?_ hn
  intro k hk x hx
  exact (hk x hx).of_more hactions hinit

theorem goalValue_le_of_more (goals : List Atom) :
    ∀ value, (RelaxedGraph.build actions init).goalValue goals = some value →
      ∃ lower ≤ value, (RelaxedGraph.build more start).goalValue goals = some lower := by
  intro value hvalue
  have hsums : sumsOf (derivationCosts actions init) goals ⊆
      sumsOf (derivationCosts more start) goals :=
    sumsOf_mono fun x _ => derivationCosts_subset_of_more hactions hinit x
  exact (RelaxedGraph.leastOf_goalValue goals).exists_le_of_subset
    (RelaxedGraph.leastOf_goalValue goals) (Set.image_mono hsums) hvalue

end More

/-- A larger task reaches no less, no later and at no higher cost. What holds at a level of the
planning graph holds at that level of the larger one, or at its last level if that comes first. In
the relaxed graph no final cost is higher. Goals that have a level or a value keep one, which is
not greater. -/
theorem graphs_monotone (hactions : actions ⊆ more) (hinit : init ⊆ start) :
    (∀ n state, (PlanningGraph.build actions init).state? n = some state →
      ∃ larger, (PlanningGraph.build more start).state?
          (min n (PlanningGraph.build more start).lastLevel) = some larger ∧
        ∀ x, state.holds x = true → larger.holds x = true) ∧
    (∀ (x : Atom) (cost : Nat), (RelaxedGraph.build actions init).finalCosts[x]? = some cost →
      ∃ lower ≤ cost, (RelaxedGraph.build more start).finalCosts[x]? = some lower) ∧
    ∀ goals,
      (∀ level, (PlanningGraph.build actions init).goalLevel goals = some level →
        ∃ earlier ≤ level, (PlanningGraph.build more start).goalLevel goals = some earlier) ∧
      (∀ level, (RelaxedGraph.build actions init).goalLevel goals = some level →
        ∃ earlier ≤ level, (RelaxedGraph.build more start).goalLevel goals = some earlier) ∧
      ∀ value, (RelaxedGraph.build actions init).goalValue goals = some value →
        ∃ lower ≤ value, (RelaxedGraph.build more start).goalValue goals = some lower := by
  refine ⟨?_, ?_, fun goals => ⟨?_, ?_, goalValue_le_of_more hactions hinit goals⟩⟩
  · intro n state hstate
    obtain ⟨layer, hlayer, rfl⟩ := Option.map_eq_some_iff.mp hstate
    -- The larger graph may end before level `n`, but then nothing comes up after its last level.
    refine ⟨PlanningGraph.levelState more start n, ?_, fun x hx => ?_⟩
    · rw [PlanningGraph.state?_build more start (Nat.min_le_right _ _),
        PlanningGraph.levelState_min]
    · rw [PlanningGraph.holds_layer_iff hlayer] at hx
      rw [PlanningGraph.holds_levelState_iff]
      exact hx.of_more hactions hinit
  · intro x cost hcost
    exact (RelaxedGraph.leastOf_finalCosts x).exists_le_of_subset
      (RelaxedGraph.leastOf_finalCosts x)
      (Set.image_mono (derivationCosts_subset_of_more hactions hinit x)) hcost
  · exact goalLevel_le_of_more hactions hinit (PlanningGraph.leastOf_goalLevel_derivable goals)
      (PlanningGraph.leastOf_goalLevel_derivable goals)
  · exact goalLevel_le_of_more hactions hinit (RelaxedGraph.leastOf_goalLevel goals)
      (RelaxedGraph.leastOf_goalLevel goals)

open PlanningGraph.Door

/-- With the door unlocked from the start and one more thing to do, the graph is shorter, and who
is inside at level two is inside at its last level. -/
theorem graphs_monotone_door :
    [unlock, enter] ⊆ [unlock, leave, enter] ∧ [key] ⊆ [unlocked, key] ∧
    (PlanningGraph.build [unlock, enter] [key]).goalLevel [inside] = some 2 ∧
    (∃ level ≤ 2, (PlanningGraph.build [unlock, leave, enter] [unlocked, key]).goalLevel [inside] =
      some level) ∧
    (PlanningGraph.build [unlock, leave, enter] [unlocked, key]).lastLevel = 1 ∧
    ∃ larger, (PlanningGraph.build [unlock, leave, enter] [unlocked, key]).state? 1 = some larger ∧
      larger.holds inside = true := by
  have hactions : [unlock, enter] ⊆ [unlock, leave, enter] := by decide
  have hinit : [key] ⊆ [unlocked, key] := by decide
  have hgoal : (PlanningGraph.build [unlock, enter] [key]).goalLevel [inside] = some 2 := by
    decide +kernel
  have hlast : (PlanningGraph.build [unlock, leave, enter] [unlocked, key]).lastLevel = 1 := by
    decide +kernel
  obtain ⟨hstates, -, hgoals⟩ := graphs_monotone hactions hinit
  obtain ⟨larger, hlarger, hholds⟩ :=
    hstates 2 _ (PlanningGraph.state?_build _ _ (by decide +kernel))
  rw [hlast] at hlarger
  refine ⟨hactions, hinit, hgoal, (hgoals [inside]).1 2 hgoal, hlast, larger, hlarger, ?_⟩
  exact hholds inside (by decide +kernel)

end StripsReach
