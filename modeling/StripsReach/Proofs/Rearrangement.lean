import Mathlib.Data.List.Nodup
import Mathlib.Data.List.Forall2
import Mathlib.Logic.Equiv.Basic
import StripsReach.State

/-!
# The same actions in another order

A task may list its actions in another order, and each with its literals in another order. The
actions are numbered by their places, so the numbers change along.
-/

namespace StripsReach

namespace GroundAction

/-- That the actions differ in the order of their literals at most. -/
structure Reordered (a b : GroundAction) : Prop where
  name : a.name = b.name
  arguments : a.arguments = b.arguments
  needs : a.needs.Perm b.needs
  blockers : a.precondition.negative.Perm b.precondition.negative
  adds : a.adds.Perm b.adds
  deletes : a.deletes.Perm b.deletes
  cost : a.cost = b.cost

namespace Reordered

variable {a b : GroundAction}

theorem refl (a : GroundAction) : a.Reordered a :=
  ⟨rfl, rfl, .refl _, .refl _, .refl _, .refl _, rfl⟩

theorem symm (h : a.Reordered b) : b.Reordered a where
  name := h.name.symm
  arguments := h.arguments.symm
  needs := h.needs.symm
  blockers := h.blockers.symm
  adds := h.adds.symm
  deletes := h.deletes.symm
  cost := h.cost.symm

theorem trans {c : GroundAction} (h : a.Reordered b) (h' : b.Reordered c) : a.Reordered c where
  name := h.name.trans h'.name
  arguments := h.arguments.trans h'.arguments
  needs := h.needs.trans h'.needs
  blockers := h.blockers.trans h'.blockers
  adds := h.adds.trans h'.adds
  deletes := h.deletes.trans h'.deletes
  cost := h.cost.trans h'.cost

theorem mem_effects (h : a.Reordered b) {f : Fact} :
    f ∈ State.effects a ↔ f ∈ State.effects b :=
  ((h.deletes.map Fact.deleted).append (h.adds.map Fact.holding)).mem_iff

theorem forall_needs (h : a.Reordered b) {p : Atom → Prop} :
    (∀ x ∈ a.needs, p x) ↔ ∀ x ∈ b.needs, p x := by
  simp only [h.needs.mem_iff]

end Reordered

end GroundAction

/-- That the actions of the first list stand in the second at the places that `place` gives them,
with their literals in any order, and that no other actions stand there. -/
structure Rearranged (place : Equiv.Perm Nat) (actions others : List GroundAction) : Prop where
  there : ∀ i a, actions[i]? = some a → ∃ b, others[place i]? = some b ∧ a.Reordered b
  back : ∀ i b, others[i]? = some b → ∃ a, actions[place.symm i]? = some a ∧ b.Reordered a

namespace Rearranged

variable {place : Equiv.Perm Nat} {actions others : List GroundAction}

theorem symm (h : Rearranged place actions others) : Rearranged place.symm others actions where
  there := h.back
  back := h.there

theorem exists_mem (h : Rearranged place actions others) {p : GroundAction → Prop}
    (hp : ∀ {a b : GroundAction}, a.Reordered b → p a → p b) (hex : ∃ a ∈ actions, p a) :
    ∃ b ∈ others, p b := by
  obtain ⟨a, ha, hpa⟩ := hex
  obtain ⟨i, hi⟩ := List.mem_iff_getElem?.mp ha
  obtain ⟨b, hb, hab⟩ := h.there i a hi
  exact ⟨b, List.mem_of_getElem? hb, hp hab hpa⟩

/-- What does not depend on the order of literals is found in both lists or in neither. -/
theorem exists_mem_iff (h : Rearranged place actions others) {p : GroundAction → Prop}
    (hp : ∀ {a b : GroundAction}, a.Reordered b → p a → p b) :
    (∃ a ∈ actions, p a) ↔ ∃ b ∈ others, p b :=
  ⟨h.exists_mem hp, h.symm.exists_mem hp⟩

theorem nil : Rearranged (Equiv.refl Nat) [] [] := ⟨by simp, by simp⟩

theorem trans {place' : Equiv.Perm Nat} {further : List GroundAction}
    (h : Rearranged place actions others) (h' : Rearranged place' others further) :
    Rearranged (place.trans place') actions further where
  there i a ha := by
    obtain ⟨b, hb, hab⟩ := h.there i a ha
    obtain ⟨c, hc, hbc⟩ := h'.there (place i) b hb
    exact ⟨c, hc, hab.trans hbc⟩
  back i c hc := by
    obtain ⟨b, hb, hcb⟩ := h'.back i c hc
    obtain ⟨a, ha, hba⟩ := h.back (place'.symm i) b hb
    exact ⟨a, ha, hcb.trans hba⟩

/-- The first place stays, and those after it are given out by `place`. -/
def keepFirst (place : Equiv.Perm Nat) : Equiv.Perm Nat where
  toFun
    | 0 => 0
    | i + 1 => place i + 1
  invFun
    | 0 => 0
    | i + 1 => place.symm i + 1
  left_inv i := by cases i <;> simp
  right_inv i := by cases i <;> simp

theorem cons {a b : GroundAction} (hab : a.Reordered b) (h : Rearranged place actions others) :
    Rearranged (keepFirst place) (a :: actions) (b :: others) := by
  constructor
  · rintro (_ | i) c hc
    · exact ⟨b, rfl, by cases hc; exact hab⟩
    · exact h.there i c hc
  · rintro (_ | i) c hc
    · exact ⟨a, rfl, by cases hc; exact hab.symm⟩
    · exact h.back i c hc

theorem swap (a b : GroundAction) (actions : List GroundAction) :
    Rearranged (Equiv.swap 0 1) (a :: b :: actions) (b :: a :: actions) := by
  have hswap : ∀ {a b : GroundAction} (i : Nat) (c : GroundAction),
      (a :: b :: actions)[i]? = some c → (b :: a :: actions)[Equiv.swap 0 1 i]? = some c := by
    rintro a b (_ | _ | i) c hc
    · exact hc
    · exact hc
    · rwa [Equiv.swap_apply_of_ne_of_ne (by omega) (by omega)]
  constructor
  · exact fun i c hc => ⟨c, hswap i c hc, .refl c⟩
  · exact fun i c hc => ⟨c, hswap i c hc, .refl c⟩

theorem exists_of_perm (h : actions.Perm others) : ∃ place, Rearranged place actions others := by
  induction h with
  | nil => exact ⟨_, nil⟩
  | cons a _ ih =>
    obtain ⟨place, h⟩ := ih
    exact ⟨_, h.cons (.refl a)⟩
  | swap a b actions => exact ⟨_, swap b a actions⟩
  | trans _ _ ih₁ ih₂ =>
    obtain ⟨place, h₁⟩ := ih₁
    obtain ⟨place', h₂⟩ := ih₂
    exact ⟨_, h₁.trans h₂⟩

theorem exists_of_forall₂ (h : List.Forall₂ GroundAction.Reordered actions others) :
    ∃ place, Rearranged place actions others := by
  induction h with
  | nil => exact ⟨_, nil⟩
  | cons hab _ ih =>
    obtain ⟨place, h⟩ := ih
    exact ⟨_, h.cons hab⟩

/-- Whatever the order of the actions and of the literals of each, there are places that tell
where the actions went. -/
theorem exists_of_reordered {shuffled : List GroundAction} (hactions : actions.Perm shuffled)
    (hliterals : List.Forall₂ GroundAction.Reordered shuffled others) :
    ∃ place, Rearranged place actions others := by
  obtain ⟨place, h⟩ := exists_of_perm hactions
  obtain ⟨place', h'⟩ := exists_of_forall₂ hliterals
  exact ⟨_, h.trans h'⟩

end Rearranged

/-- That every action of the first list stands in the second under the number that `place` gives
it, with its literals in any order. -/
def Carried (place : Equiv.Perm Nat) (enabled others : List NumberedAction) : Prop :=
  ∀ a ∈ enabled, ∃ b ∈ others, b.id = place a.id ∧ a.action.Reordered b.action

variable {place : Equiv.Perm Nat} {actions others : List GroundAction}

theorem Rearranged.carried_ofList (h : Rearranged place actions others) :
    Carried place (NumberedAction.ofList actions) (NumberedAction.ofList others) := by
  intro a ha
  obtain ⟨b, hb, hab⟩ := h.there a.id a.action (NumberedAction.mem_ofList.mp ha)
  exact ⟨⟨place a.id, b⟩, NumberedAction.mem_ofList.mpr hb, rfl, hab⟩

theorem nodup_ids_filter_ofList (actions : List GroundAction) (p : NumberedAction → Bool) :
    (((NumberedAction.ofList actions).filter p).map NumberedAction.id).Nodup := by
  refine List.pairwise_map.mpr (((NumberedAction.pairwise_id_lt_ofList actions).filter p).imp ?_)
  exact fun hlt => Nat.ne_of_lt hlt

/-- Numbers that are carried over both ways correspond, each to one. -/
theorem map_place_perm {enabled renumbered : List NumberedAction}
    (hthere : Carried place enabled renumbered) (hback : Carried place.symm renumbered enabled)
    {ids ids' : List Nat} (hids : ∀ i, i ∈ ids ↔ i ∈ enabled.map NumberedAction.id)
    (hids' : ∀ i, i ∈ ids' ↔ i ∈ renumbered.map NumberedAction.id)
    (hnodup : ids.Nodup) (hnodup' : ids'.Nodup) : (ids.map place).Perm ids' := by
  have hmapped := List.Nodup.map place.injective hnodup
  refine (List.perm_ext_iff_of_nodup hmapped hnodup').mpr fun i => ?_
  simp only [List.mem_map, hids, hids', exists_exists_and_eq_and]
  constructor
  · rintro ⟨a, ha, rfl⟩
    obtain ⟨b, hb, hid, -⟩ := hthere a ha
    exact ⟨b, hb, hid⟩
  · rintro ⟨b, hb, rfl⟩
    obtain ⟨a, ha, hid, -⟩ := hback b hb
    exact ⟨a, ha, by rw [hid, Equiv.apply_symm_apply]⟩

end StripsReach
