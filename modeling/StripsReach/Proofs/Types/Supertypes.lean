import Mathlib.Data.Fintype.Card
import Mathlib.Data.Set.Finite.Basic
import Mathlib.Logic.Relation
import StripsReach.Proofs.Types.Reached

/-!
# Supertypes and circles

A link leads from a type to its supertype, and the types above a type are those that its links
lead to. A type that is above itself lies on a circle. Placing the types without a supertype under
the universal one makes no circle and breaks none, since no link leaves the universal type; and
where there is no circle, the links of every placed type lead up to that one.
-/

namespace StripsReach.TypeHierarchy

variable {h : TypeHierarchy} {lower t upper : Name}

/-- The link from `lower` leads to `upper`. -/
def Under (h : TypeHierarchy) (lower upper : Name) : Prop := h.parent lower = some upper

instance : Decidable (h.Under lower upper) :=
  inferInstanceAs (Decidable (h.parent lower = some upper))

/-- One or more links lead from `lower` to `upper`. -/
def Below (h : TypeHierarchy) (lower upper : Name) : Prop := Relation.TransGen h.Under lower upper

theorem WellFormed.mem_subtypes_iff (hw : h.WellFormed) :
    lower ∈ h.subtypes t ↔ h.Under lower t :=
  hw.mem_subtypes lower t

theorem WellFormed.mem_types_of_under (hw : h.WellFormed) (hunder : h.Under lower upper) :
    lower ∈ h.types ∧ upper ∈ h.types :=
  hw.known lower upper hunder

theorem WellFormed.mem_types_of_below (hw : h.WellFormed) (hbelow : h.Below lower upper) :
    lower ∈ h.types := by
  obtain ⟨_, hunder, -⟩ := Relation.TransGen.head'_iff.mp hbelow
  exact (hw.mem_types_of_under hunder).1

theorem WellFormed.not_under_objectType (hw : h.WellFormed) : ¬ h.Under objectType upper := by
  rw [Under, hw.rooted]
  exact Option.some_ne_none _ ∘ Eq.symm

/-! ### Circles -/

/-- The circle through a type comes back to it from a type right under it. -/
theorem exists_under_of_below_self (hcycle : h.Below t t) : ∃ s, h.Under s t ∧ h.Below s s := by
  obtain ⟨s, hpath, hunder⟩ := Relation.TransGen.tail'_iff.mp hcycle
  exact ⟨s, hunder, Relation.TransGen.head' hunder hpath⟩

theorem under_attachOrphans (hunder : h.Under lower upper) : h.attachOrphans.Under lower upper := by
  rw [Under, parent_attachOrphans, hunder, Option.some_or]

theorem below_of_below_attachOrphans (hw : h.WellFormed)
    (hbelow : h.attachOrphans.Below lower upper) : h.Below lower upper ∨ upper = objectType := by
  have hstep : ∀ {a b}, h.attachOrphans.Under a b → h.Under a b ∨ b = objectType := by
    intro a b hunder
    rw [Under, parent_attachOrphans] at hunder
    cases hparent : h.parent a with
    | some c => exact Or.inl (hparent.trans (by simpa [hparent] using hunder))
    | none => exact Or.inr (by simp_all)
  induction hbelow with
  | single hunder => exact (hstep hunder).imp_left .single
  | tail _ hunder ih =>
    rcases ih with hpath | rfl
    · exact (hstep hunder).imp_left hpath.tail
    · exact absurd hunder hw.attachOrphans.not_under_objectType

theorem below_self_attachOrphans_iff (hw : h.WellFormed) :
    h.attachOrphans.Below t t ↔ h.Below t t := by
  constructor
  · intro hcycle
    refine (below_of_below_attachOrphans hw hcycle).resolve_right ?_
    rintro rfl
    obtain ⟨_, hunder, -⟩ := Relation.TransGen.head'_iff.mp hcycle
    exact hw.attachOrphans.not_under_objectType hunder
  · exact Relation.TransGen.mono (fun _ _ => under_attachOrphans) t t

/-- Without a circle the links of a type end at the universal one, if every other type has been
placed. -/
theorem WellFormed.below_objectType (hw : h.WellFormed) (hacyclic : ∀ t, ¬ h.Below t t)
    (hplaced : ∀ t ∈ h.types, t ≠ objectType → ∃ upper, h.Under t upper) (ht : t ∈ h.types) :
    t = objectType ∨ h.Below t objectType := by
  -- Supertypes come first: there are finitely many types, so they are well-founded.
  let above (a b : {t // t ∈ h.types}) : Prop := h.Below b.1 a.1
  have htrans : IsTrans _ above := ⟨fun _ _ _ hab hbc => Relation.TransGen.trans hbc hab⟩
  have hirrefl : Std.Irrefl above := ⟨fun a => hacyclic a.1⟩
  have hwf : WellFounded above := Finite.wellFounded_of_trans_of_irrefl above
  suffices ∀ a : {t // t ∈ h.types}, a.1 = objectType ∨ h.Below a.1 objectType from this ⟨t, ht⟩
  intro a
  induction a using hwf.induction with
  | h a ih =>
    by_cases hobject : a.1 = objectType
    · exact Or.inl hobject
    · obtain ⟨upper, hunder⟩ := hplaced a.1 a.2 hobject
      right
      rcases ih ⟨upper, (hw.mem_types_of_under hunder).2⟩ (.single hunder) with htop | hbelow
      · exact .single (htop ▸ hunder)
      · exact .head hunder hbelow

end StripsReach.TypeHierarchy

/-! ### The hierarchy that a catalog is closed over -/

namespace StripsReach.Catalog

open TypeHierarchy

variable {h : TypeHierarchy} {declarations : TypedList} {t : Name}

theorem exists_under_extended (ht : t ∈ (extended h declarations).types) (hne : t ≠ objectType) :
    ∃ upper, (extended h declarations).Under t upper :=
  exists_parent_attachOrphans ht hne

/-- Declarations add types and links to the universal type, and with that no circle. -/
theorem below_self_extended_iff (hr : h.Reached) :
    (extended h declarations).Below t t ↔ h.Below t t := by
  have hunder : (withDeclared h declarations).Under = h.Under := by
    funext lower upper
    rw [Under, parent_withDeclared, Under]
  rw [extended_eq, below_self_attachOrphans_iff (reached_withDeclared hr).wellFormed, Below, hunder,
    Below]

end StripsReach.Catalog
