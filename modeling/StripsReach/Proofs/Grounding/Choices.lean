import Mathlib.Data.List.Forall2
import Mathlib.Data.List.Nodup
import StripsReach.Grounding

/-!
# Ways to choose from several lists

The choices are exactly the tuples with one member of each list. If no list has a member twice,
they come in the order of the places of their members: of two choices the one with the earlier
member at the first difference stands first.
-/

namespace StripsReach

variable {α : Type}

theorem mem_choices {lists : List (List α)} {tuple : List α} :
    tuple ∈ choices lists ↔ List.Forall₂ (fun options a => a ∈ options) lists tuple := by
  induction lists generalizing tuple with
  | nil => rw [choices, List.mem_singleton, List.forall₂_nil_left_iff]
  | cons options rest ih =>
    rw [choices_cons, List.mem_flatMap, List.forall₂_cons_left_iff]
    simp only [List.mem_map, ih]
    constructor
    · rintro ⟨a, ha, tail, htail, rfl⟩
      exact ⟨a, tail, ha, htail, rfl⟩
    · rintro ⟨a, tail, ha, htail, rfl⟩
      exact ⟨a, ha, tail, htail, rfl⟩

theorem choices_eq_nil {lists : List (List α)} (hempty : [] ∈ lists) : choices lists = [] := by
  refine List.eq_nil_iff_forall_not_mem.mpr fun tuple htuple => ?_
  induction mem_choices.mp htuple with
  | nil => exact List.not_mem_nil hempty
  | cons ha htail ih =>
    rcases List.mem_cons.mp hempty with rfl | hrest
    · exact List.not_mem_nil ha
    · exact ih hrest (mem_choices.mpr htail)

variable [BEq α] [LawfulBEq α]

/-- The place of each member of a tuple in its list. -/
def places (lists : List (List α)) (tuple : List α) : List Nat :=
  List.zipWith (fun options a => options.idxOf a) lists tuple

theorem pairwise_idxOf_lt {options : List α} (hnodup : options.Nodup) :
    options.Pairwise fun a b => options.idxOf a < options.idxOf b := by
  refine List.pairwise_iff_getElem.mpr fun i j hi hj hij => ?_
  rwa [hnodup.idxOf_getElem, hnodup.idxOf_getElem]

theorem pairwise_places_choices {lists : List (List α)}
    (hnodup : ∀ options ∈ lists, options.Nodup) :
    (choices lists).Pairwise fun a b => places lists a < places lists b := by
  induction lists with
  | nil => exact List.pairwise_singleton _ _
  | cons options rest ih =>
    obtain ⟨hoptions, hrest⟩ := List.forall_mem_cons.mp hnodup
    rw [choices_cons, List.pairwise_flatMap]
    constructor
    · -- With the same first member the rest decides.
      intro a _
      rw [List.pairwise_map]
      exact (ih hrest).imp fun hlt => List.cons_lt_cons_iff.mpr (Or.inr ⟨rfl, hlt⟩)
    · refine (pairwise_idxOf_lt hoptions).imp fun hlt x hx y hy => ?_
      obtain ⟨tail, -, rfl⟩ := List.mem_map.mp hx
      obtain ⟨tail', -, rfl⟩ := List.mem_map.mp hy
      exact List.cons_lt_cons_iff.mpr (Or.inl hlt)

end StripsReach
