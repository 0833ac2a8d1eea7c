import Mathlib.Data.List.Basic
import Mathlib.Data.List.Nodup
import Mathlib.Logic.Relation
import StripsReach.Proofs.Types.Reached

/-!
# Where types are placed

A hierarchy can be asked for the list of its types, for the supertype of a type and for the types
right under one. The answers change together: an operation that gives a type a supertype puts the
type into one list of subtypes, and no operation takes either back. So whatever operations a
hierarchy went through, every placed type stands in exactly one list, that of its supertype.
-/

namespace StripsReach.TypeHierarchy

variable {h next later : TypeHierarchy} {t upper : Name}

/-- Once the types without a supertype are placed, there are none left to place. -/
theorem attachOrphans_attachOrphans : h.attachOrphans.attachOrphans = h.attachOrphans := by
  have hplaced : h.attachOrphans.types.filter h.attachOrphans.isOpen = [] := by
    rw [List.filter_eq_nil_iff]
    intro t ht hopen
    obtain ⟨hne, hnone⟩ := isOpen_iff.mp hopen
    obtain ⟨upper, hupper⟩ := exists_parent_attachOrphans ht hne
    rw [hnone] at hupper
    cases hupper
  rw [attachOrphans.eq_def h.attachOrphans, hplaced, List.foldl_nil]

/-! ### What later operations keep -/

/-- That one operation leads from `h` to the other hierarchy. -/
inductive Step (h : TypeHierarchy) : TypeHierarchy → Prop
  | declare (name : Name) : Step h (h.declare name)
  | assign (subtype supertype : Name) : Step h (h.assign subtype supertype).2
  | attachOrphans : Step h h.attachOrphans

theorem parent_of_step (hstep : Step h next) (hparent : h.parent t = some upper) :
    next.parent t = some upper := by
  cases hstep with
  | declare name => rw [parent_declare, hparent]
  | assign subtype supertype =>
    -- A type with a supertype is not open, so the assignment is not one of `t`.
    show (h.place subtype supertype).parent t = some upper
    rw [parent_place, if_neg, hparent]
    intro hopen
    obtain ⟨hopen, rfl⟩ := hopen
    have hnone := (isOpen_iff.mp hopen).2
    rw [hnone] at hparent
    cases hparent
  | attachOrphans => rw [parent_attachOrphans, hparent, Option.some_or]

/-- The first supertype of a type is its supertype for good. -/
theorem parent_of_later (hlater : Relation.ReflTransGen Step h later)
    (hparent : h.parent t = some upper) : later.parent t = some upper := by
  induction hlater with
  | refl => exact hparent
  | tail _ hstep ih => exact parent_of_step hstep ih

/-! ### Types, supertypes and subtypes together -/

/-- The lists of subtypes are disjoint, since a type has one supertype. -/
theorem WellFormed.nodup_flatMap_subtypes (hw : h.WellFormed) :
    (h.types.flatMap h.subtypes).Nodup := by
  rw [List.nodup_flatMap]
  constructor
  · intro upper _
    exact hw.nodup_subtypes upper
  · apply hw.nodup.imp
    intro upper other hne t hupper hother
    rw [hw.mem_subtypes] at hupper hother
    rw [hupper] at hother
    exact hne (Option.some.inj hother)

theorem WellFormed.count_flatMap_subtypes (hw : h.WellFormed) (hparent : h.parent t = some upper) :
    (h.types.flatMap h.subtypes).count t = 1 := by
  apply List.count_eq_one_of_mem hw.nodup_flatMap_subtypes
  rw [List.mem_flatMap]
  exact ⟨upper, (hw.known t upper hparent).2, (hw.mem_subtypes t upper).mpr hparent⟩

/-- What operations make of a hierarchy. The universal type is listed first, each known type once.
The supertype of a type is the one that lists it as a subtype, both are known, and no other list
has the type. An assignment answers that it counts for a type other than the universal one that has
no supertype yet, and the supertype is then found on both sides; what it recorded stays through all
later operations. Placing what is left gives every other type a supertype, and doing so again
changes nothing. -/
theorem placement_of_reached (hr : h.Reached) :
    h.types.head? = some objectType ∧ h.types.Nodup ∧
    (∀ t, t ∈ h.types ↔ h.contains t = true) ∧
    h.parent objectType = none ∧
    (∀ t upper, h.parent t = some upper ↔ t ∈ h.subtypes upper) ∧
    (∀ t upper, h.parent t = some upper → h.contains t = true ∧ h.contains upper = true ∧
      (h.types.flatMap h.subtypes).count t = 1) ∧
    (∀ t upper, ((h.assign t upper).1 = true ↔ t ≠ objectType ∧ h.parent t = none) ∧
      (∀ s, (h.assign t upper).2.parent s =
        if (h.assign t upper).1 = true ∧ s = t then some upper else h.parent s) ∧
      ∀ s, (h.assign t upper).2.subtypes s =
        h.subtypes s ++ if (h.assign t upper).1 = true ∧ upper = s then [t] else []) ∧
    (∀ later, Relation.ReflTransGen Step h later →
      ∀ t upper, h.parent t = some upper → later.parent t = some upper) ∧
    (∀ t, h.attachOrphans.contains t = true → t ≠ objectType →
      ∃ upper, h.attachOrphans.parent t = some upper) ∧
    h.attachOrphans.attachOrphans = h.attachOrphans := by
  have hw := hr.wellFormed
  refine ⟨hw.head, hw.nodup, fun t => hw.contains_iff.symm, hw.rooted,
    fun t upper => (hw.mem_subtypes t upper).symm, fun t upper hparent => ?_, fun t upper => ?_,
    fun later hlater t upper => parent_of_later hlater, fun t ht => ?_,
    attachOrphans_attachOrphans⟩
  · obtain ⟨ht, hupper⟩ := hw.known t upper hparent
    exact ⟨hw.contains_iff.mpr ht, hw.contains_iff.mpr hupper, hw.count_flatMap_subtypes hparent⟩
  · have hanswer : (h.assign t upper).1 = h.isOpen t := by rw [assign_eq]
    rw [hanswer]
    exact ⟨isOpen_iff, fun s => parent_place, fun s => subtypes_place⟩
  · exact exists_parent_attachOrphans (hw.attachOrphans.contains_iff.mp ht)

/-- A wheel is placed under itself, and the universal type in vain under the wheel. -/
def wheels : TypeHierarchy := (root.place "wheel" "wheel").place objectType "wheel"

/-- The wheel stands in one list, its own. To assign it again is answered in the negative, and it
stays where it is when all that is left gets placed. -/
theorem placement_of_reached_wheels : wheels.Reached ∧
    (wheels.types.flatMap wheels.subtypes).count "wheel" = 1 ∧
    (wheels.assign "wheel" "cart").1 = false ∧
    (wheels.assign "wheel" "cart").2.attachOrphans.parent "wheel" = some "wheel" ∧
    (wheels.assign "wheel" "cart").2.attachOrphans.subtypes objectType = ["cart"] := by
  have hr : wheels.Reached := (Reached.root.assign "wheel" "wheel").assign objectType "wheel"
  have hwheel : wheels.parent "wheel" = some "wheel" := by decide
  have hlater :
      Relation.ReflTransGen Step wheels (wheels.assign "wheel" "cart").2.attachOrphans :=
    .tail (.single (.assign "wheel" "cart")) .attachOrphans
  obtain ⟨-, -, -, -, -, honce, hassign, hkept, -⟩ := placement_of_reached hr
  refine ⟨hr, (honce _ _ hwheel).2.2, ?_, hkept _ hlater _ _ hwheel, by decide⟩
  rw [Bool.eq_false_iff]
  intro hanswer
  have hnone := ((hassign "wheel" "cart").1.mp hanswer).2
  rw [hwheel] at hnone
  cases hnone

end StripsReach.TypeHierarchy
