import Mathlib.Data.Set.Basic
import StripsReach.Proofs.Graph.Levels

/-!
# Executions stay within the planning graph

An execution changes a set of atoms action by action, and here deletions do take atoms away.
After `k` actions its atoms all hold at level `k` of the graph, or at the last level if the graph
is shorter, so a goal that no level has is never reached, and one that a level is the first to
have is not reached by fewer actions.
-/

namespace StripsReach

namespace GroundAction

/-- The atoms after the action: what it deletes goes, then what it adds comes. -/
def result (a : GroundAction) (atoms : Set Atom) : Set Atom :=
  (atoms \ {x | x ∈ a.deletes}) ∪ {x | x ∈ a.adds}

/-- That no atom holds that the action needs to be false. -/
def Unblocked (atoms : Set Atom) (a : GroundAction) : Prop :=
  ∀ x ∈ a.precondition.negative, x ∉ atoms

end GroundAction

/-- The atoms after a sequence of actions. -/
def resultOf (atoms : Set Atom) (plan : List GroundAction) : Set Atom :=
  plan.foldl (fun atoms a => a.result atoms) atoms

/-- That a sequence of the given actions can be executed: each has all that it needs when its
turn comes. Whatever else an execution may ask is in `permits`. -/
inductive Executable (actions : List GroundAction) (permits : Set Atom → GroundAction → Prop) :
    Set Atom → List GroundAction → Prop
  | nil (atoms : Set Atom) : Executable actions permits atoms []
  | cons {atoms : Set Atom} {a : GroundAction} {plan : List GroundAction} :
      a ∈ actions → (∀ x ∈ a.needs, x ∈ atoms) → permits atoms a →
      Executable actions permits (a.result atoms) plan →
      Executable actions permits atoms (a :: plan)

namespace PlanningGraph

variable {actions : List GroundAction} {init : List Atom}
  {permits : Set Atom → GroundAction → Prop}

/-- One action leads from what holds at a level to what holds at the next. -/
theorem result_holds_next {n : Nat} {atoms : Set Atom} {a : GroundAction} (ha : a ∈ actions)
    (hneeds : ∀ x ∈ a.needs, x ∈ atoms)
    (hlevel : ∀ x ∈ atoms, Fact.holding x ∈ levelState actions init n) :
    ∀ x ∈ a.result atoms, Fact.holding x ∈ levelState actions init (n + 1) := by
  rintro x (⟨hx, -⟩ | hx)
  · exact (mem_levelState_succ actions init).mpr (.inr (hlevel x hx))
  · have henabled : ∀ y ∈ a.needs, Fact.holding y ∈ levelState actions init n :=
      fun y hy => hlevel y (hneeds y hy)
    exact (mem_levelState_succ_iff actions init).mpr
      (.inl ⟨a, ha, henabled, State.holding_mem_effects.mpr hx⟩)

/-- A whole execution that starts within level `n`. -/
theorem execution_holds_later {atoms : Set Atom} {plan : List GroundAction}
    (h : Executable actions permits atoms plan) (n : Nat)
    (hlevel : ∀ x ∈ atoms, Fact.holding x ∈ levelState actions init n) (k : Nat)
    (hk : k ≤ plan.length) :
    (∀ x ∈ resultOf atoms (plan.take k), Fact.holding x ∈ levelState actions init (n + k)) ∧
      ∀ a, plan[k]? = some a → ∀ x ∈ a.needs, Fact.holding x ∈ levelState actions init (n + k) := by
  induction h generalizing n k with
  | nil atoms =>
    obtain rfl : k = 0 := by simpa using hk
    exact ⟨hlevel, nofun⟩
  | @cons atoms a plan ha hneeds _ _ ih =>
    cases k with
    | zero =>
      refine ⟨hlevel, ?_⟩
      intro b hb
      obtain rfl : a = b := by simpa using hb
      exact fun x hx => hlevel x (hneeds x hx)
    | succ k =>
      have hnext := ih (n + 1) (result_holds_next ha hneeds hlevel) k (by simpa using hk)
      rw [Nat.add_right_comm, Nat.add_assoc] at hnext
      exact hnext

/-- The graph bounds every execution from the initial atoms. After `k` actions the atoms all hold
at level `k`, or at the last level, and the action that comes next is enabled there. Hence goals
without a level are not reached at all, and goals with a level not by fewer actions. -/
theorem execution_within_levels (actions : List GroundAction) (init : List Atom)
    (permits : Set Atom → GroundAction → Prop) {plan : List GroundAction}
    (h : Executable actions permits {x | x ∈ init} plan) :
    (∀ k ≤ plan.length, ∃ state,
      (build actions init).state? (min k (build actions init).lastLevel) = some state ∧
      (∀ x ∈ resultOf {x | x ∈ init} (plan.take k), state.holds x = true) ∧
      ∀ a, plan[k]? = some a → state.enables a = true) ∧
    (∀ goals, (build actions init).goalLevel goals = none →
      ¬ ∀ x ∈ goals, x ∈ resultOf {x | x ∈ init} plan) ∧
    ∀ goals level, (build actions init).goalLevel goals = some level → plan.length < level →
      ¬ ∀ x ∈ goals, x ∈ resultOf {x | x ∈ init} plan := by
  have hinit : ∀ x ∈ {x | x ∈ init}, Fact.holding x ∈ levelState actions init 0 :=
    fun x hx => (mem_levelState_zero actions init).mpr ⟨x, hx, rfl⟩
  have hsteps := execution_holds_later h 0 hinit
  have hend : ∀ x ∈ resultOf {x | x ∈ init} plan,
      Fact.holding x ∈ levelState actions init plan.length := by
    have hlast := (hsteps plan.length le_rfl).1
    rwa [List.take_length, Nat.zero_add] at hlast
  refine ⟨?_, ?_, ?_⟩
  · intro k hk
    refine ⟨levelState actions init k, ?_, ?_, ?_⟩
    · rw [state?_build actions init (Nat.min_le_right _ _), levelState_min]
    · intro x hx
      have hholds := (hsteps k hk).1 x hx
      rw [Nat.zero_add] at hholds
      exact State.holds_iff.mpr hholds
    · intro a ha
      have hneeds := (hsteps k hk).2 a ha
      rw [Nat.zero_add] at hneeds
      exact State.enables_iff.mpr hneeds
  · intro goals hnone hreached
    exact (goalLevel_build_eq_none_iff actions init).mp hnone plan.length
      fun x hx => hend x (hreached x hx)
  · intro goals level hsome hlt hreached
    exact ((goalLevel_build_eq_some_iff actions init).mp hsome).2.2 plan.length hlt
      fun x hx => hend x (hreached x hx)

open Door in
/-- The door is opened and passed with the alarm off. The last action is enabled at level one,
and the two actions never turn the alarm on. -/
theorem execution_within_levels_door :
    Executable [unlock, enter] GroundAction.Unblocked {x | x ∈ [key]} [unlock, enter] ∧
    (∃ state, (build [unlock, enter] [key]).state? 1 = some state ∧ state.enables enter = true) ∧
    (build [unlock, enter] [key]).goalLevel [alarm] = none ∧
    ¬ ∀ x ∈ [alarm], x ∈ resultOf {x | x ∈ [key]} [unlock, enter] := by
  have hplan : Executable [unlock, enter] GroundAction.Unblocked {x | x ∈ [key]}
      [unlock, enter] := by
    refine .cons (by simp) ?_ nofun (.cons (by simp) ?_ ?_ (.nil _))
    · simp [unlock, GroundAction.needs]
    · simp [unlock, enter, GroundAction.needs, GroundAction.result, GroundAction.adds]
    · simp [unlock, enter, GroundAction.Unblocked, GroundAction.result, GroundAction.adds,
        key, unlocked, alarm]
  have hwithin := execution_within_levels [unlock, enter] [key] GroundAction.Unblocked hplan
  have hnone : (build [unlock, enter] [key]).goalLevel [alarm] = none := by decide +kernel
  refine ⟨hplan, ?_, hnone, hwithin.2.1 _ hnone⟩
  have hlast : min 1 (build [unlock, enter] [key]).lastLevel = 1 := by decide +kernel
  obtain ⟨state, hstate, -, hnext⟩ := hwithin.1 1 (by simp)
  rw [hlast] at hstate
  exact ⟨state, hstate, hnext enter rfl⟩

end PlanningGraph

end StripsReach
