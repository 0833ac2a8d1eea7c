import StripsReach.Proofs.Graph.Levels
import StripsReach.Proofs.Mutex.History

/-!
# The mutexes of a planning graph, level by level

The history compares the actions of a level with all that were enabled before. In a graph these
are enabled at that level too, and the states have grown, so the mutexes recorded up to a level
are those of the level alone.
-/

namespace StripsReach.PlanningGraph

open MutexHistory (Call HoldsAt enabledIn run)

variable (actions : List GroundAction) (init : List Atom)

/-- The analysis of level `n`. -/
def levelCall (n : Nat) : Call actions where
  level := n
  state := levelState actions init n
  layer := levelEnabled actions init n
  mem_actions := fun _ ha => (mem_enabledBy.mp ha).1

/-- The analyses of the first `count` levels. -/
def levelCalls (count : Nat) : List (Call actions) :=
  (List.range count).map (levelCall actions init)

theorem mutexes_build : (build actions init).mutexes =
    run (levelCalls actions init (build actions init).lastLevel) := by
  rw [run, levelCalls, List.foldl_map]
  refine (mutexes_grow _ _ _ _ _).trans ?_
  simp only [analysedAfter, Nat.zero_add]
  rfl

theorem levels_levelCalls (count : Nat) :
    (levelCalls actions init count).map Call.level = List.range count := by
  rw [levelCalls, List.map_map]
  exact List.map_id _

theorem levelEnabled_subset {n k : Nat} (hnk : n ≤ k) :
    levelEnabled actions init n ⊆ levelEnabled actions init k :=
  fun _ ha => mem_enabledBy_of_le hnk ha

/-- At a level it makes no difference whether earlier layers count. -/
theorem holdsAt_levelCalls_iff {α : Type} {relation : List NumberedAction → State → α → Prop}
    (hgrow : Growing relation) {count n : Nat} (hn : n < count) (e : α) :
    HoldsAt relation (levelCalls actions init count) n e ↔
      relation (levelEnabled actions init n) (levelState actions init n) e := by
  have hcall : (levelCalls actions init count)[n]? = some (levelCall actions init n) := by
    rw [levelCalls, List.getElem?_map, List.getElem?_range hn, Option.map_some]
  have hlayers : ∀ a, a ∈ enabledIn ((levelCalls actions init count).take (n + 1)) ↔
      a ∈ levelEnabled actions init n := by
    intro a
    rw [enabledIn, levelCalls, ← List.map_take, List.take_range, List.mem_flatMap]
    simp only [List.mem_map, List.mem_range, exists_exists_and_eq_and]
    constructor
    · rintro ⟨k, hk, ha⟩
      exact levelEnabled_subset actions init (by omega) ha
    · intro ha
      exact ⟨n, by omega, ha⟩
  rw [HoldsAt, hcall]
  simp only [Option.some.injEq, exists_eq_left']
  exact ⟨hgrow (fun a ha => (hlayers a).mp ha) fun _ hf => hf,
    hgrow (fun a ha => (hlayers a).mpr ha) fun _ hf => hf⟩

variable {α : Type} [Ord α] [Std.TransOrd α]
  {relation : List NumberedAction → State → α → Prop} {t : Timeline α} {count : Nat}

theorem levelCount_eq (h : t.Recorded ((levelCalls actions init count).map Call.level)
    (HoldsAt relation (levelCalls actions init count))) : t.levelCount = count := by
  rw [levels_levelCalls] at h
  refine eq_of_forall_lt_iff fun n => ?_
  rw [h.levelCount]
  constructor
  · rintro ⟨l, hl, hnl⟩
    exact hnl.trans_lt (List.mem_range.mp hl)
  · intro hn
    exact ⟨n, List.mem_range.mpr hn, le_rfl⟩

/-- An entry stands at the first level that has it, if the graph goes on from there. -/
theorem mem_atLevel_iff (hgrow : Growing relation)
    (h : t.Recorded ((levelCalls actions init count).map Call.level)
      (HoldsAt relation (levelCalls actions init count))) {n : Nat} {e : α} :
    e ∈ t.atLevel n ↔ n < count ∧
      IsLeast {k | relation (levelEnabled actions init k) (levelState actions init k) e} n := by
  have hlevel : ∀ {k l : Nat}, (List.range count)[k]? = some l ↔ k < count ∧ k = l := by
    intro k l
    rw [List.getElem?_eq_some_iff]
    simp
  have hfirst : ∀ {k}, k < count →
      (IsLeast {j | HoldsAt relation (levelCalls actions init count) j e} k ↔
        IsLeast {j | relation (levelEnabled actions init j) (levelState actions init j) e} k) :=
    Timeline.isLeast_congr_of_lt fun j hj => holdsAt_levelCalls_iff actions init hgrow hj e
  rw [levels_levelCalls] at h
  simp only [h.mem_atLevel, hlevel]
  constructor
  · rintro ⟨k, ⟨hk, rfl⟩, hleast⟩
    exact ⟨hk, (hfirst hk).mp hleast⟩
  · rintro ⟨hn, hleast⟩
    exact ⟨n, ⟨hn, rfl⟩, (hfirst hn).mpr hleast⟩

variable [Std.LawfulEqOrd α]

theorem mem_entries_iff (hgrow : Growing relation)
    (h : t.Recorded ((levelCalls actions init count).map Call.level)
      (HoldsAt relation (levelCalls actions init count))) {e : α} :
    e ∈ t.entries ↔
      ∃ n < count, relation (levelEnabled actions init n) (levelState actions init n) e := by
  rw [Timeline.mem_entries, h.mem_all, levels_levelCalls, List.length_range]
  exact exists_congr fun n => and_congr_right fun hn =>
    holdsAt_levelCalls_iff actions init hgrow hn e

/-- What a relation has recorded up to a level is what it has at the level. -/
theorem mem_upToLevel_iff (hgrow : Growing relation)
    (h : t.Recorded ((levelCalls actions init count).map Call.level)
      (HoldsAt relation (levelCalls actions init count))) {n : Nat} (hn : n < count) (e : α) :
    e ∈ t.upToLevel n ↔ relation (levelEnabled actions init n) (levelState actions init n) e := by
  rw [Timeline.mem_upToLevel]
  simp only [mem_atLevel_iff actions init hgrow h]
  constructor
  · rintro ⟨k, hk, -, hleast⟩
    exact hgrow (levelEnabled_subset actions init hk) (fun f hf => mem_stateAfter_of_le hk hf)
      hleast.1
  · intro he
    obtain ⟨k, hk⟩ := exists_isLeast
      (S := {k | relation (levelEnabled actions init k) (levelState actions init k) e}) he
    have hkn : k ≤ n := hk.2 he
    exact ⟨k, hkn, by omega, hk⟩

/-- The actions that a level enables, by their numbers in the graph. -/
def enabledActions (actions : List GroundAction) (g : PlanningGraph) (level : Nat) :
    List NumberedAction :=
  (NumberedAction.ofList actions).filter fun a => a.id ∈ g.enabledAt level

theorem enabledActions_build {n : Nat} (hn : n < (build actions init).lastLevel) :
    (build actions init).enabledActions actions n = levelEnabled actions init n := by
  rw [enabledActions, enabledAt_build actions init hn]
  refine List.filter_congr fun a ha => ?_
  rw [Bool.eq_iff_iff, decide_eq_true_iff, List.mem_map]
  constructor
  · rintro ⟨b, hb, hid⟩
    have hb' := List.mem_filter.mp hb
    rw [← NumberedAction.eq_of_id_eq hb'.1 ha hid]
    exact hb'.2
  · intro henables
    exact ⟨a, List.mem_filter.mpr ⟨ha, henables⟩, rfl⟩

/-- An analysis of one level by itself. -/
theorem mem_all_of_one_call {r : Timeline α} {n : Nat}
    (h : r.Recorded ([levelCall actions init n].map Call.level)
      (HoldsAt relation [levelCall actions init n])) (e : α) :
    e ∈ r.entries ↔ relation (levelEnabled actions init n) (levelState actions init n) e := by
  have hone : HoldsAt relation [levelCall actions init n] 0 e ↔
      relation (enabledIn [levelCall actions init n]) (levelState actions init n) e :=
    MutexHistory.holdsAt_concat [] (levelCall actions init n) e
  rw [enabledIn, List.flatMap_singleton] at hone
  rw [Timeline.mem_entries, h.mem_all]
  simp only [List.map_singleton, List.length_singleton, Nat.lt_one_iff, exists_eq_left]
  exact hone

/-- Whatever the graph, the mutexes recorded up to a level are those of the level alone: of its
enabled actions, compared two by two, and of its state. An analysis that starts afresh at the
level records the same. Each relation has a set for every level but the last. -/
theorem mutexes_upToLevel_eq_level (actions : List GroundAction) (init : List Atom) :
    (build actions init).mutexes.interference.levelCount = (build actions init).lastLevel ∧
    (build actions init).mutexes.effects.levelCount = (build actions init).lastLevel ∧
    (build actions init).mutexes.support.levelCount = (build actions init).lastLevel ∧
    ∀ level < (build actions init).lastLevel, ∃ state,
      (build actions init).state? level = some state ∧
      let enabled := (build actions init).enabledActions actions level
      let mutexes := (build actions init).mutexes
      let alone := MutexHistory.empty.analyse level state enabled
      (∀ p, p ∈ mutexes.interference.upToLevel level ↔
        p ∈ pairsWhere GroundAction.Disables enabled) ∧
      (∀ p, EffectMutex.actions p ∈ mutexes.effects.upToLevel level ↔
        p ∈ pairsWhere GroundAction.Undoes enabled) ∧
      (∀ i x, EffectMutex.actionFact i x ∈ mutexes.effects.upToLevel level ↔
        (∃ a ∈ enabled, a.id = i ∧ x ∈ a.action.deletes) ∧ Fact.holding x ∈ state) ∧
      (∀ x, x ∈ mutexes.support.upToLevel level ↔
        Fact.holding x ∈ state ∧ Fact.deleted x ∈ state) ∧
      mutexes.interference.upToLevel level = alone.interference.entries ∧
      mutexes.effects.upToLevel level = alone.effects.entries ∧
      mutexes.support.upToLevel level = alone.support.entries := by
  have hall := MutexHistory.analysed_run
    (levelCalls actions init (build actions init).lastLevel)
  rw [← mutexes_build] at hall
  refine ⟨levelCount_eq actions init hall.interference, levelCount_eq actions init hall.effects,
    levelCount_eq actions init hall.support, ?_⟩
  intro level hlevel
  have halone := MutexHistory.analysed_run [levelCall actions init level]
  have hinterference := mem_upToLevel_iff actions init growing_interfering hall.interference hlevel
  have heffects := mem_upToLevel_iff actions init growing_inconsistent hall.effects hlevel
  have hsupport := mem_upToLevel_iff actions init growing_conflicting hall.support hlevel
  refine ⟨levelState actions init level, state?_build actions init hlevel.le, ?_⟩
  rw [enabledActions_build actions init hlevel]
  refine ⟨hinterference, fun p => heffects _, fun i x => heffects _, hsupport, ?_, ?_, ?_⟩
  · exact Timeline.upToLevel_eq_entries fun p => (hinterference p).trans
      (mem_all_of_one_call actions init halone.interference p).symm
  · exact Timeline.upToLevel_eq_entries fun e => (heffects e).trans
      (mem_all_of_one_call actions init halone.effects e).symm
  · exact Timeline.upToLevel_eq_entries fun x => (hsupport x).trans
      (mem_all_of_one_call actions init halone.support x).symm

open Door in
/-- Entering takes away the key that unlocking needs, and level one is the first to enable both. -/
theorem mutexes_upToLevel_eq_level_door :
    1 < (build [unlock, enter] [key]).lastLevel ∧
    ActionPair.of 0 1 ∈ (build [unlock, enter] [key]).mutexes.interference.upToLevel 1 := by
  have hlast : 1 < (build [unlock, enter] [key]).lastLevel := by decide +kernel
  obtain ⟨-, -, -, hlevels⟩ := mutexes_upToLevel_eq_level [unlock, enter] [key]
  obtain ⟨state, -, hinterference, -⟩ := hlevels 1 hlast
  refine ⟨hlast, (hinterference _).mpr ?_⟩
  refine ⟨⟨0, unlock⟩, ?_, ⟨1, enter⟩, ?_, nofun, rfl, ?_⟩
  · decide +kernel
  · decide +kernel
  · exact .inr ⟨key, by simp [enter, GroundAction.deletes], by simp [unlock, GroundAction.needs]⟩

end StripsReach.PlanningGraph
