import StripsReach.Proofs.Graph.Execution
import StripsReach.Proofs.Graph.Mutexes

/-!
# Actions that are not mutex are independent

Two actions without a mutex of their own can be applied in either order, wherever both have what
they need: neither takes away what the other needs, and the atoms afterwards are the same. The
conflict of an action with an atom of a level plays no part in this.
-/

namespace StripsReach

namespace GroundAction

/-- That, wherever both actions have what they need, each has it still after the other, and either
order leads to the same atoms. -/
structure Independent (a b : GroundAction) : Prop where
  first_keeps : ∀ atoms : Set Atom, (∀ x ∈ a.needs, x ∈ atoms) → (∀ x ∈ b.needs, x ∈ atoms) →
    ∀ x ∈ b.needs, x ∈ a.result atoms
  second_keeps : ∀ atoms : Set Atom, (∀ x ∈ a.needs, x ∈ atoms) → (∀ x ∈ b.needs, x ∈ atoms) →
    ∀ x ∈ a.needs, x ∈ b.result atoms
  comm : ∀ atoms : Set Atom, (∀ x ∈ a.needs, x ∈ atoms) → (∀ x ∈ b.needs, x ∈ atoms) →
    b.result (a.result atoms) = a.result (b.result atoms)

variable {a b : GroundAction}

theorem mem_result_iff {atoms : Set Atom} {x : Atom} :
    x ∈ a.result atoms ↔ (x ∈ atoms ∧ x ∉ a.deletes) ∨ x ∈ a.adds := Iff.rfl

/-- What is needed and not deleted is still there. -/
theorem needs_mem_result (h : ¬ a.Disables b) {atoms : Set Atom}
    (hneeds : ∀ x ∈ b.needs, x ∈ atoms) : ∀ x ∈ b.needs, x ∈ a.result atoms := by
  intro x hx
  have hkept : x ∉ a.deletes := fun hdeleted => h ⟨x, hdeleted, hx⟩
  exact mem_result_iff.mpr (.inl ⟨hneeds x hx, hkept⟩)

/-- Both orders delete what either deletes and add what either adds. -/
theorem mem_result_result_iff (h : ¬ b.Undoes a) {atoms : Set Atom} {x : Atom} :
    x ∈ b.result (a.result atoms) ↔
      (x ∈ atoms ∧ x ∉ a.deletes ∧ x ∉ b.deletes) ∨ x ∈ a.adds ∨ x ∈ b.adds := by
  have hkept : x ∈ a.adds → x ∉ b.deletes := fun hadded hdeleted => h ⟨x, hdeleted, hadded⟩
  rw [mem_result_iff, mem_result_iff]
  constructor
  · rintro (⟨⟨hx, ha⟩ | ha, hb⟩ | hb)
    · exact .inl ⟨hx, ha, hb⟩
    · exact .inr (.inl ha)
    · exact .inr (.inr hb)
  · rintro (⟨hx, ha, hb⟩ | ha | hb)
    · exact .inl ⟨.inl ⟨hx, ha⟩, hb⟩
    · exact .inl ⟨.inr ha, hkept ha⟩
    · exact .inr hb

theorem result_comm (hab : ¬ a.Undoes b) (hba : ¬ b.Undoes a) (atoms : Set Atom) :
    b.result (a.result atoms) = a.result (b.result atoms) := by
  ext x
  rw [mem_result_result_iff hba, mem_result_result_iff hab, or_comm (a := x ∈ a.adds),
    and_comm (a := x ∉ a.deletes)]

theorem independent_of_not (hab : ¬ a.Disables b) (hba : ¬ b.Disables a)
    (hundoes_ab : ¬ a.Undoes b) (hundoes_ba : ¬ b.Undoes a) : Independent a b where
  first_keeps := fun _ _ hb => needs_mem_result hab hb
  second_keeps := fun _ ha _ => needs_mem_result hba ha
  comm := fun atoms _ _ => result_comm hundoes_ab hundoes_ba atoms

end GroundAction

/-- Two enabled actions that are not listed as a pair are related in neither order. -/
theorem not_related_of_not_mem_pairsWhere {related : GroundAction → GroundAction → Prop}
    {enabled : List NumberedAction} {a b : NumberedAction} (ha : a ∈ enabled) (hb : b ∈ enabled)
    (hne : a.id ≠ b.id) (h : ActionPair.of a.id b.id ∉ pairsWhere related enabled) :
    ¬ related a.action b.action ∧ ¬ related b.action a.action := by
  constructor
  · exact fun hab => h ⟨a, ha, b, hb, hne, rfl, .inl hab⟩
  · exact fun hba => h ⟨a, ha, b, hb, hne, rfl, .inr hba⟩

namespace PlanningGraph

/-- Two different actions of a graph's history for which no mutex was ever recorded are
independent. Only a recorded pair can stand in the way, since the history compares every two of
its actions. -/
theorem independent_of_not_mutex (actions : List GroundAction) (init : List Atom) {i j : Nat}
    (hi : i ∈ (build actions init).mutexes.ids) (hj : j ∈ (build actions init).mutexes.ids)
    (hne : i ≠ j)
    (heffects : EffectMutex.actions (.of i j) ∉ (build actions init).mutexes.effects.entries)
    (hinterference : ActionPair.of i j ∉ (build actions init).mutexes.interference.entries) :
    ∃ a b, actions[i]? = some a ∧ actions[j]? = some b ∧ a.Independent b := by
  have hanalysed := MutexHistory.analysed_run
    (levelCalls actions init (build actions init).lastLevel)
  rw [← mutexes_build] at hanalysed
  rw [hanalysed.indexes.mem_ids, List.mem_map] at hi hj
  obtain ⟨a, ha, rfl⟩ := hi
  obtain ⟨b, hb, rfl⟩ := hj
  rw [hanalysed.mem_effects_iff] at heffects
  rw [hanalysed.mem_interference_iff] at hinterference
  obtain ⟨hab, hba⟩ := not_related_of_not_mem_pairsWhere ha hb hne hinterference
  obtain ⟨hundoes_ab, hundoes_ba⟩ := not_related_of_not_mem_pairsWhere ha hb hne heffects
  refine ⟨a.action, b.action, ?_, ?_, ?_⟩
  · exact NumberedAction.mem_ofList.mp (MutexHistory.mem_ofList_of_mem_enabledIn ha)
  · exact NumberedAction.mem_ofList.mp (MutexHistory.mem_ofList_of_mem_enabledIn hb)
  · exact GroundAction.independent_of_not hab hba hundoes_ab hundoes_ba

namespace Door

/-- The bell rings whatever else happens. -/
def ring : GroundAction := ⟨"ring", [], ⟨[], []⟩, ⟨[alarm], [inside]⟩, 1⟩

/-- Unlocking and ringing are both in the history without a mutex, so the door may be unlocked
before or after. -/
theorem independent_of_not_mutex_ring :
    0 ∈ (build [unlock, ring] [key]).mutexes.ids ∧
    1 ∈ (build [unlock, ring] [key]).mutexes.ids ∧
    ring.result (unlock.result {key, inside}) = unlock.result (ring.result {key, inside}) := by
  have hunlock : 0 ∈ (build [unlock, ring] [key]).mutexes.ids := by decide +kernel
  have hring : 1 ∈ (build [unlock, ring] [key]).mutexes.ids := by decide +kernel
  obtain ⟨a, b, ha, hb, hindependent⟩ := independent_of_not_mutex [unlock, ring] [key] hunlock
    hring (by decide) (by decide +kernel) (by decide +kernel)
  obtain rfl : unlock = a := Option.some.inj ha
  obtain rfl : ring = b := Option.some.inj hb
  refine ⟨hunlock, hring, hindependent.comm _ ?_ ?_⟩
  · simp [unlock, GroundAction.needs]
  · simp [ring, GroundAction.needs]

end Door

end PlanningGraph

end StripsReach
