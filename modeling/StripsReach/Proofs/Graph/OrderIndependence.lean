import StripsReach.Proofs.Graph.Agreement
import StripsReach.Proofs.Graph.Mutexes
import StripsReach.Proofs.Mutex.Renumbering

/-!
# Graphs do not depend on the order of their inputs

With the actions, their literals, the initial atoms and the goals in another order, the graphs are
the same up to the numbers of the actions. Nothing is compared run against run: a step from a state
or from costs is the same function for both lists, and the mutexes are those of the levels.
-/

namespace StripsReach

variable {place : Equiv.Perm Nat} {actions others : List GroundAction} {init start : List Atom}

namespace PlanningGraph

theorem successor_eq (h : Rearranged place actions others) :
    successor (NumberedAction.ofList actions) = successor (NumberedAction.ofList others) := by
  funext s
  ext f
  rw [mem_successor_ofList, mem_successor_ofList]
  refine or_congr_left (h.exists_mem_iff ?_)
  rintro a b hab ⟨hneeds, hf⟩
  exact ⟨hab.forall_needs.mp hneeds, hab.mem_effects.mp hf⟩

theorem carried_enabledBy (h : Rearranged place actions others) (s : State) :
    Carried place (enabledBy s (NumberedAction.ofList actions))
      (enabledBy s (NumberedAction.ofList others)) := by
  intro a ha
  obtain ⟨hlist, hneeds⟩ := mem_enabledBy.mp ha
  obtain ⟨b, hb, hid, hab⟩ := h.carried_ofList a hlist
  exact ⟨b, mem_enabledBy.mpr ⟨hb, hab.forall_needs.mp hneeds⟩, hid, hab⟩

end PlanningGraph

namespace Costs

/-- Costs add up to the same in any order, also where they are cut off. -/
theorem sum?_perm (costs : Costs) {atoms others : List Atom} (h : atoms.Perm others) :
    costs.sum? atoms = costs.sum? others := by
  have hswap : ∀ total v w, addCost (addCost total v) w = addCost (addCost total w) v := by
    intro total v w
    simp only [addCost]
    omega
  rw [sum?, sum?]
  generalize 0 = total
  induction h generalizing total with
  | nil => rfl
  | cons x _ ih =>
    simp only [List.foldlM_cons]
    cases costs[x]? with
    | none => rfl
    | some v => exact ih (addCost total v)
  | swap x y atoms =>
    simp only [List.foldlM_cons]
    cases costs[x]? with
    | none => cases costs[y]? <;> rfl
    | some v =>
      cases costs[y]? with
      | none => rfl
      | some w =>
        change atoms.foldlM _ (addCost (addCost total w) v) = atoms.foldlM _ _
        rw [hswap]
  | trans _ _ ih₁ ih₂ => exact (ih₁ total).trans (ih₂ total)

theorem successor_eq (h : Rearranged place actions others) :
    successor (NumberedAction.ofList actions) = successor (NumberedAction.ofList others) := by
  funext costs
  refine Std.ExtTreeMap.ext_getElem? fun x => ?_
  have hoffers : {v | ∃ a ∈ actions, x ∈ a.adds ∧
        ∃ sum, costs.sum? a.needs = some sum ∧ v = addCost a.cost sum} =
      {v | ∃ b ∈ others, x ∈ b.adds ∧
        ∃ sum, costs.sum? b.needs = some sum ∧ v = addCost b.cost sum} := by
    ext v
    refine h.exists_mem_iff ?_
    rintro a b hab ⟨hx, sum, hsum, rfl⟩
    rw [sum?_perm costs hab.needs] at hsum
    exact ⟨hab.adds.mem_iff.mp hx, sum, hsum, by rw [hab.cost]⟩
  have hleast := leastOf_successor actions costs x
  rw [hoffers] at hleast
  exact hleast.unique (leastOf_successor others costs x)

theorem carried_enabled (h : Rearranged place actions others) (costs : Costs) :
    Carried place ((costs.enabled (NumberedAction.ofList actions)).map Prod.fst)
      ((costs.enabled (NumberedAction.ofList others)).map Prod.fst) := by
  intro a ha
  rw [map_fst_enabled, List.mem_filter] at ha
  obtain ⟨b, hb, hid, hab⟩ := h.carried_ofList a ha.1
  refine ⟨b, ?_, hid, hab⟩
  rw [map_fst_enabled, List.mem_filter, ← sum?_perm costs hab.needs]
  exact ⟨hb, ha.2⟩

end Costs

theorem State.ofAtoms_congr (h : ∀ x, x ∈ init ↔ x ∈ start) :
    State.ofAtoms init = State.ofAtoms start := by
  ext f
  simp only [State.mem_ofAtoms, h]

theorem Costs.ofAtoms_congr (h : ∀ x, x ∈ init ↔ x ∈ start) :
    Costs.ofAtoms init = Costs.ofAtoms start := by
  refine Std.ExtTreeMap.ext_getElem? fun x => ?_
  have hleast := Costs.leastOf_ofAtoms init x
  simp only [h] at hleast
  exact hleast.unique (Costs.leastOf_ofAtoms start x)

/-- That the layers are the same up to the numbers of their actions. -/
structure Layer.Corresponds (place : Equiv.Perm Nat) (l m : Layer) : Prop where
  level : l.level = m.level
  state : l.state = m.state
  actions : (l.actions.map place).Perm m.actions

/-- That the graphs are the same up to the numbers of the actions. -/
structure PlanningGraph.Corresponds (place : Equiv.Perm Nat) (g h : PlanningGraph) : Prop where
  termination : g.termination = h.termination
  layers : List.Forall₂ (Layer.Corresponds place) g.layers h.layers
  interference : g.mutexes.interference.Corresponds (ActionPair.rename place) h.mutexes.interference
  effects : g.mutexes.effects.Corresponds (EffectMutex.rename place) h.mutexes.effects
  support : g.mutexes.support.Corresponds (Equiv.refl Atom) h.mutexes.support
  ids : (g.mutexes.ids.map place).Perm h.mutexes.ids

/-- That the layers are the same up to the numbers of their actions. -/
structure RelaxedLayer.Corresponds (place : Equiv.Perm Nat) (l m : RelaxedLayer) : Prop where
  level : l.level = m.level
  costs : l.costs = m.costs
  actions : (l.actions.map place).Perm m.actions

/-- That the graphs are the same up to the numbers of the actions. -/
structure RelaxedGraph.Corresponds (place : Equiv.Perm Nat) (g h : RelaxedGraph) : Prop where
  termination : g.termination = h.termination
  layers : List.Forall₂ (RelaxedLayer.Corresponds place) g.layers h.layers

/-- That two growths take the same steps and enable the same actions under other numbers. -/
structure Growth.Renumbered {σ κ : Type} (place : Equiv.Perm Nat) (G H : Growth σ κ) : Prop where
  step : G.step = H.step
  enabled : ∀ s, ((G.enabled s).map place).Perm (H.enabled s)

namespace Growth.Renumbered

variable {σ κ : Type} {G H : Growth σ κ}

theorem eq_nil_iff (h : Renumbered place G H) (s : σ) : G.enabled s = [] ↔ H.enabled s = [] := by
  rw [← List.length_eq_zero_iff, ← List.length_eq_zero_iff, ← (h.enabled s).length_eq,
    List.length_map]

theorem appliedAt (h : Renumbered place G H) (s : σ) (n : Nat) :
    ((G.appliedAt s [] n).map place).Perm (H.appliedAt s [] n) := by
  cases n with
  | zero => exact .nil
  | succ n =>
    rw [Growth.appliedAt, Growth.appliedAt, ← h.step]
    exact h.enabled _

end Growth.Renumbered

namespace PlanningGraph

theorem renumbered_growth (h : Rearranged place actions others) :
    (growth (NumberedAction.ofList actions)).Renumbered place
      (growth (NumberedAction.ofList others)) where
  step := successor_eq h
  enabled s := map_place_perm (carried_enabledBy h s) (carried_enabledBy h.symm s)
    (fun _ => Iff.rfl) (fun _ => Iff.rfl) (nodup_ids_filter_ofList actions _)
    (nodup_ids_filter_ofList others _)

theorem levels_rearranged (others : List GroundAction) (hinit : ∀ x, x ∈ init ↔ x ∈ start) :
    (growth (NumberedAction.ofList others)).Levels 0 (State.ofAtoms init) []
      (build others start).layers (build others start).termination := by
  rw [State.ofAtoms_congr hinit]
  exact levels_build others start

section Levels

variable (h : Rearranged place actions others) (hinit : ∀ x, x ∈ init ↔ x ∈ start)
include h hinit

theorem levelState_eq (n : Nat) : levelState actions init n = levelState others start n := by
  rw [levelState, levelState, stateAfter, stateAfter, successor_eq h, State.ofAtoms_congr hinit]

theorem carried_levelEnabled (n : Nat) :
    Carried place (levelEnabled actions init n) (levelEnabled others start n) := by
  rw [levelEnabled, levelEnabled, levelState_eq h hinit]
  exact carried_enabledBy h _

theorem lastLevel_eq : (build actions init).lastLevel = (build others start).lastLevel := by
  have hgrowth := renumbered_growth h
  rw [lastLevel, lastLevel,
    (levels_build actions init).length_congr (levels_rearranged others hinit) hgrowth.step
      hgrowth.eq_nil_iff]

/-- Two recordings of one relation, level by level, one for each list of actions. -/
theorem corresponds_of_recorded {α : Type} [Ord α] [Std.TransOrd α] [Std.LawfulEqOrd α]
    {relation : List NumberedAction → State → α → Prop} {rename : Equiv.Perm Nat → Equiv.Perm α}
    (hgrow : Growing relation) (hrename : Renames relation rename) {t s : Timeline α} {count : Nat}
    (ht : t.Recorded ((levelCalls actions init count).map MutexHistory.Call.level)
      (MutexHistory.HoldsAt relation (levelCalls actions init count)))
    (hs : s.Recorded ((levelCalls others start count).map MutexHistory.Call.level)
      (MutexHistory.HoldsAt relation (levelCalls others start count))) :
    t.Corresponds (rename place) s := by
  have hlevel : ∀ n e, relation (levelEnabled actions init n) (levelState actions init n) e ↔
      relation (levelEnabled others start n) (levelState others start n) (rename place e) := by
    intro n e
    rw [levelState_eq h hinit]
    exact hrename.iff (carried_levelEnabled h hinit n)
      (carried_levelEnabled h.symm (fun x => (hinit x).symm) n)
  constructor
  · rw [levelCount_eq actions init ht, levelCount_eq others start hs]
  · intro e
    simp only [mem_entries_iff actions init hgrow ht, mem_entries_iff others start hgrow hs, hlevel]
  · intro level e
    simp only [mem_atLevel_iff actions init hgrow ht, mem_atLevel_iff others start hgrow hs, hlevel]

theorem carried_enabledIn (count : Nat) :
    Carried place (MutexHistory.enabledIn (levelCalls actions init count))
      (MutexHistory.enabledIn (levelCalls others start count)) := by
  have hmem : ∀ (list : List GroundAction) (atoms : List Atom) (a : NumberedAction),
      a ∈ MutexHistory.enabledIn (levelCalls list atoms count) ↔
        ∃ n < count, a ∈ levelEnabled list atoms n := by
    intro list atoms a
    simp only [MutexHistory.enabledIn, levelCalls, List.mem_flatMap, List.mem_map, List.mem_range,
      exists_exists_and_eq_and]
    rfl
  intro a ha
  obtain ⟨n, hn, ha⟩ := (hmem actions init a).mp ha
  obtain ⟨b, hb, hab⟩ := carried_levelEnabled h hinit n a ha
  exact ⟨b, (hmem others start b).mpr ⟨n, hn, hb⟩, hab⟩

theorem corresponds_build : (build actions init).Corresponds place (build others start) := by
  have hgrowth := renumbered_growth h
  have hlevels := levels_build actions init
  have hothers := levels_rearranged others hinit
  have hback : ∀ x, x ∈ start ↔ x ∈ init := fun x => (hinit x).symm
  have hanalysed := MutexHistory.analysed_run
    (levelCalls actions init (build actions init).lastLevel)
  have hanalysed' := MutexHistory.analysed_run
    (levelCalls others start (build others start).lastLevel)
  rw [← mutexes_build] at hanalysed hanalysed'
  rw [← lastLevel_eq h hinit] at hanalysed'
  constructor
  · exact hlevels.termination_congr hothers hgrowth.step hgrowth.eq_nil_iff
  · refine hlevels.forall₂_congr hothers hgrowth.step hgrowth.eq_nil_iff fun n => ?_
    exact ⟨rfl, rfl, hgrowth.appliedAt _ n⟩
  · exact corresponds_of_recorded h hinit growing_interfering renames_interfering
      hanalysed.interference hanalysed'.interference
  · exact corresponds_of_recorded h hinit growing_inconsistent renames_inconsistent
      hanalysed.effects hanalysed'.effects
  · exact corresponds_of_recorded h hinit growing_conflicting renames_conflicting
      hanalysed.support hanalysed'.support
  · refine map_place_perm (carried_enabledIn h hinit _) (carried_enabledIn h.symm hback _)
      hanalysed.indexes.mem_ids hanalysed'.indexes.mem_ids ?_ ?_
    · rw [hanalysed.indexes.ids_eq]
      exact nodup_eraseDups _
    · rw [hanalysed'.indexes.ids_eq]
      exact nodup_eraseDups _

theorem goalLevel_eq {goals reordered : List Atom} (hgoals : goals.Perm reordered) :
    (build actions init).goalLevel goals = (build others start).goalLevel reordered := by
  have hleast := leastOf_goalLevel actions init goals
  simp only [levelState_eq h hinit, hgoals.mem_iff] at hleast
  exact hleast.unique (leastOf_goalLevel others start reordered)

end Levels

end PlanningGraph

namespace RelaxedGraph

theorem renumbered_growth (h : Rearranged place actions others) :
    (growth (NumberedAction.ofList actions)).Renumbered place
      (growth (NumberedAction.ofList others)) where
  step := Costs.successor_eq h
  enabled costs := by
    have hids : ∀ list : List GroundAction,
        (growth (NumberedAction.ofList list)).enabled costs =
          ((costs.enabled (NumberedAction.ofList list)).map Prod.fst).map NumberedAction.id := by
      intro list
      rw [List.map_map]
      rfl
    have hnodup : ∀ list : List GroundAction,
        ((growth (NumberedAction.ofList list)).enabled costs).Nodup := by
      intro list
      rw [hids, Costs.map_fst_enabled]
      exact nodup_ids_filter_ofList list _
    refine map_place_perm (Costs.carried_enabled h costs) (Costs.carried_enabled h.symm costs)
      (fun i => ?_) (fun i => ?_) (hnodup actions) (hnodup others)
    · rw [hids]
    · rw [hids]

section Levels

variable (h : Rearranged place actions others) (hinit : ∀ x, x ∈ init ↔ x ∈ start)
include h hinit

theorem levelCosts_eq (n : Nat) : levelCosts actions init n = levelCosts others start n := by
  rw [levelCosts, levelCosts, Costs.successor_eq h, Costs.ofAtoms_congr hinit]

theorem corresponds_build : (build actions init).Corresponds place (build others start) := by
  have hgrowth := renumbered_growth h
  have hlevels := levels_build actions init
  have hothers := levels_build others start
  rw [← Costs.ofAtoms_congr hinit] at hothers
  constructor
  · exact hlevels.termination_congr hothers hgrowth.step hgrowth.eq_nil_iff
  · refine hlevels.forall₂_congr hothers hgrowth.step hgrowth.eq_nil_iff fun n => ?_
    exact ⟨rfl, rfl, hgrowth.appliedAt _ n⟩

theorem goalLevel_eq {goals reordered : List Atom} (hgoals : goals.Perm reordered) :
    (build actions init).goalLevel goals = (build others start).goalLevel reordered := by
  have hleast : LeastOf ((build actions init).goalLevel goals) _ := leastOf_goalLevel goals
  have hother : LeastOf ((build others start).goalLevel reordered) _ := leastOf_goalLevel reordered
  simp only [← isSome_levelCosts_iff, levelCosts_eq h hinit, hgoals.mem_iff] at hleast hother
  exact hleast.unique hother

theorem goalValue_eq {goals reordered : List Atom} (hgoals : goals.Perm reordered) :
    (build actions init).goalValue goals = (build others start).goalValue reordered := by
  have hlength := (corresponds_build h hinit).layers.length_eq
  have hfinal : (build actions init).finalCosts = (build others start).finalCosts := by
    rw [finalCosts_build, finalCosts_build, levelCosts_eq h hinit, lastLevel, lastLevel, hlength]
  rw [goalValue, goalValue, hfinal]
  exact Costs.sum?_perm _ hgoals

end Levels

end RelaxedGraph

/-- Nothing depends on the order of the inputs. With the actions, their literals and the initial
atoms in another order, also with initial atoms repeated, both graphs are the same up to the
numbers of the actions: how and where they end, every level with its state or costs, the actions
before it, and the mutexes of every level and of all. Goals in any order have the same level in
both graphs and the same value. -/
theorem graphs_of_rearranged (h : Rearranged place actions others)
    (hinit : ∀ x, x ∈ init ↔ x ∈ start) :
    (PlanningGraph.build actions init).Corresponds place (PlanningGraph.build others start) ∧
    (RelaxedGraph.build actions init).Corresponds place (RelaxedGraph.build others start) ∧
    ∀ goals reordered : List Atom, goals.Perm reordered →
      (PlanningGraph.build actions init).goalLevel goals =
        (PlanningGraph.build others start).goalLevel reordered ∧
      (RelaxedGraph.build actions init).goalLevel goals =
        (RelaxedGraph.build others start).goalLevel reordered ∧
      (RelaxedGraph.build actions init).goalValue goals =
        (RelaxedGraph.build others start).goalValue reordered :=
  ⟨PlanningGraph.corresponds_build h hinit, RelaxedGraph.corresponds_build h hinit,
    fun _ _ hgoals => ⟨PlanningGraph.goalLevel_eq h hinit hgoals,
      RelaxedGraph.goalLevel_eq h hinit hgoals, RelaxedGraph.goalValue_eq h hinit hgoals⟩⟩

open PlanningGraph.Door

/-- The key locks the open door, behind which nobody is left. -/
def lock : GroundAction := ⟨"lock", [], ⟨[key, unlocked], []⟩, ⟨[], [unlocked, inside]⟩, 1⟩

def lockReordered : GroundAction :=
  ⟨"lock", [], ⟨[unlocked, key], []⟩, ⟨[], [inside, unlocked]⟩, 1⟩

/-- Three places are passed on in a circle. -/
def rotation : Equiv.Perm Nat := (Equiv.swap 1 2).trans (Equiv.swap 0 1)

theorem rearranged_rotation :
    Rearranged rotation [unlock, lock, leave] [leave, unlock, lockReordered] := by
  have hlock : lock.Reordered lockReordered :=
    ⟨rfl, rfl, .swap _ _ _, .nil, .nil, .swap _ _ _, rfl⟩
  constructor
  · intro i a ha
    match i with
    | 0 => exact ⟨unlock, rfl, by cases ha; exact .refl _⟩
    | 1 => exact ⟨lockReordered, rfl, by cases ha; exact hlock⟩
    | 2 => exact ⟨leave, rfl, by cases ha; exact .refl _⟩
  · intro i b hb
    match i with
    | 0 => exact ⟨leave, rfl, by cases hb; exact .refl _⟩
    | 1 => exact ⟨unlock, rfl, by cases hb; exact .refl _⟩
    | 2 => exact ⟨lock, rfl, by cases hb; exact hlock.symm⟩

/-- Unlocking and locking are mutex at level one, under the numbers zero and one or under one and
two. -/
theorem graphs_of_rearranged_rotation :
    EffectMutex.actions (.of 1 2) ∈
      (PlanningGraph.build [leave, unlock, lockReordered] [key, key]).mutexes.effects.atLevel 1 ∧
    (PlanningGraph.build [unlock, lock, leave] [key]).goalLevel [unlocked, key] =
      (PlanningGraph.build [leave, unlock, lockReordered] [key, key]).goalLevel
        [key, unlocked] := by
  have hinit : ∀ x, x ∈ [key] ↔ x ∈ [key, key] := by simp
  obtain ⟨hplanning, -, hgoals⟩ := graphs_of_rearranged rearranged_rotation hinit
  have hmutex : EffectMutex.actions (.of 0 1) ∈
      (PlanningGraph.build [unlock, lock, leave] [key]).mutexes.effects.atLevel 1 := by
    decide +kernel
  exact ⟨(hplanning.effects.atLevel 1 _).mp hmutex, (hgoals _ _ (.swap _ _ _)).1⟩

end StripsReach
