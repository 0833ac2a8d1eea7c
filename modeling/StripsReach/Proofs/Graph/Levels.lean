import StripsReach.Graph.Planning
import StripsReach.Proofs.Graph.Growth

/-!
# The levels of a planning graph

A planning graph is read here level by level: the state of level `n` is what applying all enabled
actions gives after `n` times, up to the level after which nothing changes, and every level but
the last was analysed with the actions that it enables.
-/

namespace StripsReach.PlanningGraph

/-- The state after all enabled actions have been applied `n` times. -/
def stateAfter (actions : List NumberedAction) (start : State) (n : Nat) : State :=
  (successor actions)^[n] start

/-- The growth of a planning graph over the actions. -/
def growth (actions : List NumberedAction) : Growth State Layer where
  step := successor actions
  enabled := fun state => (enabledBy state actions).map NumberedAction.id
  layer := Layer.mk
  step_eq_self := by
    intro state h
    rw [successor, List.map_eq_nil_iff.mp h, List.map_nil, List.foldl_nil]

theorem levels_grow (actions : List NumberedAction) (level : Nat) (start : State)
    (applied : List Nat) (m : MutexHistory) :
    (growth actions).Levels level start applied (grow actions level start applied m).layers
      (grow actions level start applied m).termination := by
  fun_induction grow actions level start applied m with
  | case1 level start applied m layer enabled hempty =>
    exact Growth.levels_deadEnd (List.map_eq_nil_iff.mpr (List.isEmpty_iff.mp hempty))
  | case2 level start applied m layer enabled next hempty hfix =>
    refine Growth.levels_fixpoint ?_ hfix
    exact fun hnil => hempty (List.isEmpty_iff.mpr (List.map_eq_nil_iff.mp hnil))
  | case3 level start applied m layer enabled next hempty hne rest ih =>
    refine ih.cons ?_ hne
    exact fun hnil => hempty (List.isEmpty_iff.mpr (List.map_eq_nil_iff.mp hnil))

/-- The history after the states of the first `n` times have been analysed, level after level. -/
def analysedAfter (actions : List NumberedAction) (level : Nat) (start : State) (m : MutexHistory)
    (n : Nat) : MutexHistory :=
  (List.range n).foldl (fun m i => m.analyse (level + i) (stateAfter actions start i)
    (enabledBy (stateAfter actions start i) actions)) m

theorem analysedAfter_succ (actions : List NumberedAction) (level : Nat) (start : State)
    (m : MutexHistory) (n : Nat) :
    analysedAfter actions level start m (n + 1) =
      analysedAfter actions (level + 1) (successor actions start)
        (m.analyse level start (enabledBy start actions)) n := by
  rw [analysedAfter, analysedAfter, List.range_succ_eq_map, List.foldl_cons, List.foldl_map]
  simp only [Nat.succ_eq_add_one, Nat.add_assoc, Nat.add_comm 1]
  rfl

theorem mutexes_grow (actions : List NumberedAction) (level : Nat) (start : State)
    (applied : List Nat) (m : MutexHistory) :
    (grow actions level start applied m).mutexes =
      analysedAfter actions level start m (grow actions level start applied m).lastLevel := by
  fun_induction grow actions level start applied m with
  | case1 | case2 => rfl
  | case3 level start applied m layer enabled next hempty hne rest ih =>
    have hlast : rest.layers.length = rest.lastLevel + 1 := (levels_grow _ _ _ _ _).length_eq
    change rest.mutexes = analysedAfter actions level start m rest.layers.length
    rw [hlast, analysedAfter_succ]
    exact ih

theorem stateAfter_succ (actions : List NumberedAction) (start : State) (n : Nat) :
    stateAfter actions start (n + 1) = successor actions (stateAfter actions start n) :=
  Function.iterate_succ_apply' _ _ _

/-- Nothing is ever lost. -/
theorem mem_stateAfter_of_le {actions : List NumberedAction} {start : State} {n k : Nat}
    (hnk : n ≤ k) {f : Fact} (hf : f ∈ stateAfter actions start n) :
    f ∈ stateAfter actions start k := by
  induction hnk with
  | refl => exact hf
  | step _ ih =>
    rw [stateAfter_succ]
    exact mem_successor.mpr (.inr ih)

theorem mem_enabledBy {s : State} {actions : List NumberedAction} {a : NumberedAction} :
    a ∈ enabledBy s actions ↔ a ∈ actions ∧ ∀ x ∈ a.action.needs, Fact.holding x ∈ s := by
  rw [enabledBy, List.mem_filter, State.enables_iff]

/-- What is enabled stays enabled. -/
theorem mem_enabledBy_of_le {actions : List NumberedAction} {start : State} {n k : Nat}
    (hnk : n ≤ k) {a : NumberedAction} (ha : a ∈ enabledBy (stateAfter actions start n) actions) :
    a ∈ enabledBy (stateAfter actions start k) actions := by
  rw [mem_enabledBy] at ha ⊢
  exact ⟨ha.1, fun x hx => mem_stateAfter_of_le hnk (ha.2 x hx)⟩

/-- A step from a state depends on which actions there are, not on their numbers. -/
theorem mem_successor_ofList {actions : List GroundAction} {s : State} {f : Fact} :
    f ∈ successor (NumberedAction.ofList actions) s ↔
      (∃ a ∈ actions, (∀ x ∈ a.needs, Fact.holding x ∈ s) ∧ f ∈ State.effects a) ∨ f ∈ s := by
  rw [mem_successor, ← NumberedAction.exists_mem_ofList
    (p := fun a => (∀ x ∈ a.needs, Fact.holding x ∈ s) ∧ f ∈ State.effects a)]
  simp only [mem_enabledBy, and_assoc]

section Build

variable (actions : List GroundAction) (init : List Atom)

/-- The state of level `n` of the planning graph, and of any later level if there is none. -/
def levelState (n : Nat) : State :=
  stateAfter (NumberedAction.ofList actions) (State.ofAtoms init) n

/-- The actions that the state of level `n` enables. -/
def levelEnabled (n : Nat) : List NumberedAction :=
  enabledBy (levelState actions init n) (NumberedAction.ofList actions)

theorem levels_build : (growth (NumberedAction.ofList actions)).Levels 0 (State.ofAtoms init) []
    (build actions init).layers (build actions init).termination :=
  levels_grow _ _ _ _ _

/-- The numbers of the actions that level `n` is listed with. -/
def levelApplied (n : Nat) : List Nat :=
  (growth (NumberedAction.ofList actions)).appliedAt (State.ofAtoms init) [] n

theorem levelApplied_succ (n : Nat) :
    levelApplied actions init (n + 1) = (levelEnabled actions init n).map NumberedAction.id := rfl

theorem getElem?_layers_build {n : Nat} (hn : n ≤ (build actions init).lastLevel) :
    (build actions init).layers[n]? =
      some ⟨n, levelState actions init n, levelApplied actions init n⟩ :=
  (levels_build actions init).getElem? hn

theorem layer_eq {n : Nat} {layer : Layer} (h : (build actions init).layers[n]? = some layer) :
    layer = ⟨n, levelState actions init n, levelApplied actions init n⟩ :=
  (levels_build actions init).layer_eq h

theorem state?_build {n : Nat} (hn : n ≤ (build actions init).lastLevel) :
    (build actions init).state? n = some (levelState actions init n) := by
  rw [state?, getElem?_layers_build actions init hn, Option.map_some]

theorem enabledAt_build {n : Nat} (hn : n < (build actions init).lastLevel) :
    (build actions init).enabledAt n = (levelEnabled actions init n).map NumberedAction.id := by
  rw [enabledAt, (levels_build actions init).getElem?_succ hn]
  rfl

theorem levelState_min (n : Nat) :
    levelState actions init (min n (build actions init).lastLevel) = levelState actions init n :=
  (levels_build actions init).stops.iterate_min n

/-- Initially exactly the initial atoms hold, and nothing was deleted. -/
theorem mem_levelState_zero {f : Fact} :
    f ∈ levelState actions init 0 ↔ ∃ x ∈ init, f = .holding x :=
  State.mem_ofAtoms

theorem mem_levelState_succ {n : Nat} {f : Fact} :
    f ∈ levelState actions init (n + 1) ↔
      (∃ a ∈ levelEnabled actions init n, f ∈ State.effects a.action) ∨
        f ∈ levelState actions init n := by
  rw [levelState, stateAfter_succ]
  exact mem_successor

/-- The next level has besides the effects of every action whose needs all hold. -/
theorem mem_levelState_succ_iff {n : Nat} {f : Fact} :
    f ∈ levelState actions init (n + 1) ↔
      (∃ a ∈ actions, (∀ x ∈ a.needs, Fact.holding x ∈ levelState actions init n) ∧
        f ∈ State.effects a) ∨ f ∈ levelState actions init n := by
  rw [levelState, stateAfter_succ]
  exact mem_successor_ofList

/-- The goals' level is the least number of steps that give a state with them all. -/
theorem leastOf_goalLevel (goals : List Atom) :
    LeastOf ((build actions init).goalLevel goals)
      {n | ∀ x ∈ goals, Fact.holding x ∈ levelState actions init n} :=
  (levels_build actions init).leastOf_find? (fun layer => goals.all layer.state.holds) Layer.level
    (fun state => ∀ x ∈ goals, Fact.holding x ∈ state) (fun _ _ _ => rfl)
    fun _ _ _ => State.all_holds_iff

theorem goalLevel_build_eq_some_iff {goals : List Atom} {n : Nat} :
    (build actions init).goalLevel goals = some n ↔
      n ≤ (build actions init).lastLevel ∧
      (∀ x ∈ goals, Fact.holding x ∈ levelState actions init n) ∧
      ∀ k < n, ¬ ∀ x ∈ goals, Fact.holding x ∈ levelState actions init k := by
  rw [leastOf_goalLevel actions init goals n]
  constructor
  · rintro ⟨hn, hlow⟩
    refine ⟨?_, hn, fun k hk hgoals => Nat.not_lt.mpr (hlow hgoals) hk⟩
    have hmin : ∀ x ∈ goals,
        Fact.holding x ∈ levelState actions init (min n (build actions init).lastLevel) := by
      rwa [levelState_min]
    have hle := hlow hmin
    omega
  · rintro ⟨-, hn, hfirst⟩
    refine ⟨hn, fun k hk => ?_⟩
    by_contra hlt
    exact hfirst k (by omega) hk

/-- The goals have no level iff no state ever has them all. -/
theorem goalLevel_build_eq_none_iff {goals : List Atom} :
    (build actions init).goalLevel goals = none ↔
      ∀ n, ¬ ∀ x ∈ goals, Fact.holding x ∈ levelState actions init n := by
  rw [(leastOf_goalLevel actions init goals).eq_none_iff]
  exact Set.eq_empty_iff_forall_notMem

end Build

namespace Door

def key : Atom := ⟨"key", []⟩

def unlocked : Atom := ⟨"unlocked", []⟩

def inside : Atom := ⟨"inside", []⟩

def alarm : Atom := ⟨"alarm", []⟩

/-- The key unlocks the door. -/
def unlock : GroundAction := ⟨"unlock", [], ⟨[key], []⟩, ⟨[unlocked], []⟩, 1⟩

/-- Who enters leaves the key outside, and does not enter while the alarm is on. -/
def enter : GroundAction := ⟨"enter", [], ⟨[unlocked], [alarm]⟩, ⟨[inside], [key]⟩, 1⟩

example : (build [unlock, enter] [key]).goalLevel [inside] = some 2 := by decide +kernel

end Door

end StripsReach.PlanningGraph
