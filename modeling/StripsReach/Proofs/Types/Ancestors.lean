import Mathlib.Data.List.Chain
import StripsReach.Proofs.Types.Supertypes

/-!
# The supertypes of a type, listed

The supertypes of a type are found by following links, and a hierarchy may run in circles. The walk
carries no bound. It ends because it stops at a link that leads back, to where it started or to a
type it has met, and there are no more types to meet than the hierarchy knows. By then it has met
every type above the start: a link that leads back leads to nothing new.
-/

namespace StripsReach.TypeHierarchy

variable {h g : TypeHierarchy} {x current lower t upper : Name} {found path : List Name}

/-- The links lead from `x` through the types in `path`, one after the other, and meet no type
twice. -/
structure Climb (h : TypeHierarchy) (x : Name) (path : List Name) : Prop where
  linked : (x :: path).IsChain h.Under
  nodup : (x :: path).Nodup

/-- At the end of `path` there is no link, or one that leads back. -/
def Ends (h : TypeHierarchy) (x : Name) (path : List Name) : Prop :=
  ∀ lower ∈ (x :: path).getLast?, ∀ upper, h.Under lower upper → upper ∈ x :: path

/-! ### The walk -/

theorem isChain_concat (hlinked : (x :: path).IsChain h.Under)
    (hlast : (x :: path).getLast? = some lower) (hunder : h.Under lower upper) :
    (x :: path ++ [upper]).IsChain h.Under := by
  refine hlinked.append (List.isChain_singleton upper) ?_
  rintro last hlast' _ ⟨⟩
  rw [hlast] at hlast'
  obtain rfl := Option.some.inj hlast'
  exact hunder

theorem Climb.concat (hclimb : h.Climb x found) (hlast : (x :: found).getLast? = some current)
    (hunder : h.Under current upper) (hnew : upper ∉ x :: found) :
    h.Climb x (found ++ [upper]) where
  linked := isChain_concat hclimb.linked hlast hunder
  nodup := by
    have hnodup := hclimb.nodup.concat hnew
    rwa [List.concat_eq_append] at hnodup

/-- The walk adds to a climb as long as it can. -/
theorem climb_ancestorsFrom (hclimb : h.Climb x found)
    (hlast : (x :: found).getLast? = some current) :
    h.Climb x (h.ancestorsFrom x found current) ∧ h.Ends x (h.ancestorsFrom x found current) := by
  fun_induction ancestorsFrom h x found current with
  | case1 found current hnone =>
    refine ⟨hclimb, fun lower hlower upper hunder => ?_⟩
    rw [hlast] at hlower
    obtain rfl := Option.some.inj hlower
    rw [Under, hnone] at hunder
    cases hunder
  | case2 found current supertype hparent hback =>
    refine ⟨hclimb, fun lower hlower upper hunder => ?_⟩
    rw [hlast] at hlower
    obtain rfl := Option.some.inj hlower
    rw [Under, hparent] at hunder
    obtain rfl := Option.some.inj hunder
    exact List.mem_cons.mpr hback
  | case3 found current supertype hparent hnew ih =>
    have hfresh : supertype ∉ x :: found := fun hmem => hnew (List.mem_cons.mp hmem)
    refine ih (hclimb.concat hlast hparent hfresh) ?_
    rw [← List.cons_append, List.getLast?_append, List.getLast?_singleton, Option.some_or]

theorem climb_ancestors (h : TypeHierarchy) (x : Name) :
    h.Climb x (h.ancestors x) ∧ h.Ends x (h.ancestors x) :=
  climb_ancestorsFrom ⟨List.isChain_singleton x, List.nodup_singleton x⟩ rfl

/-! ### What a climb meets -/

/-- A member of a chain is its last, or another follows it there. -/
theorem getLast?_eq_or_exists_next {α : Type} {R : α → α → Prop} {l : List α} {a : α}
    (hl : l.IsChain R) (ha : a ∈ l) : l.getLast? = some a ∨ ∃ b ∈ l, R a b := by
  induction l with
  | nil => cases ha
  | cons b l ih =>
    cases l with
    | nil =>
      obtain rfl := List.mem_singleton.mp ha
      exact Or.inl rfl
    | cons c l =>
      obtain ⟨hbc, hl⟩ := List.isChain_cons_cons.mp hl
      rcases List.mem_cons.mp ha with rfl | ha
      · exact Or.inr ⟨c, by simp, hbc⟩
      · rw [List.getLast?_cons_cons]
        exact (ih hl ha).imp_right fun ⟨d, hd, had⟩ => ⟨d, List.mem_cons_of_mem b hd, had⟩

/-- No link leads out of a climb that has come to its end. -/
theorem Climb.mem_of_under (hclimb : h.Climb x path) (hends : h.Ends x path)
    (hlower : lower ∈ x :: path) (hunder : h.Under lower upper) : upper ∈ x :: path := by
  rcases getLast?_eq_or_exists_next hclimb.linked hlower with hlast | ⟨next, hnext, hunder'⟩
  · exact hends lower hlast upper hunder
  · -- A type has one supertype, so the next type is the one the link leads to.
    rw [Under, hunder] at hunder'
    exact Option.some.inj hunder' ▸ hnext

theorem Climb.mem_of_below (hclimb : h.Climb x path) (hends : h.Ends x path)
    (hbelow : h.Below x t) : t ∈ x :: path := by
  induction hbelow with
  | single hunder => exact hclimb.mem_of_under hends List.mem_cons_self hunder
  | tail _ hunder ih => exact hclimb.mem_of_under hends ih hunder

theorem Climb.below_of_mem (hclimb : h.Climb x path) (ht : t ∈ path) : h.Below x t := by
  have hbelow : (x :: path).IsChain (Relation.TransGen h.Under) :=
    hclimb.linked.imp fun _ _ => Relation.TransGen.single
  exact hbelow.rel_cons ht

theorem mem_ancestors_iff : t ∈ h.ancestors x ↔ t ≠ x ∧ h.Below x t := by
  obtain ⟨hclimb, hends⟩ := climb_ancestors h x
  constructor
  · intro ht
    refine ⟨?_, hclimb.below_of_mem ht⟩
    rintro rfl
    exact (List.nodup_cons.mp hclimb.nodup).1 ht
  · rintro ⟨hne, hbelow⟩
    exact (List.mem_cons.mp (hclimb.mem_of_below hends hbelow)).resolve_left hne

/-- The types of a climb are known, and they are not all: where it starts is not among them. -/
theorem WellFormed.length_lt_of_climb (hw : h.WellFormed) (hclimb : h.Climb x path) :
    path.length < h.types.length := by
  cases path with
  | nil => exact List.length_pos_of_mem hw.objectType_mem
  | cons t path =>
    have hknown : x :: t :: path ⊆ h.types := by
      intro s hs
      rcases List.mem_cons.mp hs with rfl | hs
      · exact hw.mem_types_of_below (hclimb.below_of_mem List.mem_cons_self)
      · obtain ⟨_, -, hunder⟩ := Relation.TransGen.tail'_iff.mp (hclimb.below_of_mem hs)
        exact (hw.mem_types_of_under hunder).2
    exact (hclimb.nodup.subperm hknown).length_le

/-- Once every type has been placed, only the universal type ends a walk that meets no type
twice. -/
theorem getLast?_ancestors (hw : h.attachOrphans.WellFormed) (hx : x ∈ h.attachOrphans.types)
    (hne : x ≠ objectType)
    (hfree : ∀ path, (x :: path).IsChain h.attachOrphans.Under → (x :: path).Nodup) :
    (h.attachOrphans.ancestors x).getLast? = some objectType := by
  obtain ⟨hclimb, hends⟩ := climb_ancestors h.attachOrphans x
  obtain ⟨last, hlast⟩ : ∃ last, (x :: h.attachOrphans.ancestors x).getLast? = some last :=
    ⟨_, List.getLast?_cons⟩
  have hknown : last ∈ h.attachOrphans.types := by
    rcases List.mem_cons.mp (List.mem_of_getLast? hlast) with rfl | hmem
    · exact hx
    · obtain ⟨_, -, hunder⟩ := Relation.TransGen.tail'_iff.mp (hclimb.below_of_mem hmem)
      exact (hw.mem_types_of_under hunder).2
  have htop : last = objectType := by
    by_contra hother
    obtain ⟨upper, hunder⟩ := exists_parent_attachOrphans hknown hother
    have hagain := hfree _ (isChain_concat hclimb.linked hlast hunder)
    exact (List.nodup_append.mp hagain).2.2 upper (hends last hlast upper hunder) upper
      List.mem_cons_self rfl
  subst htop
  cases hpath : h.attachOrphans.ancestors x with
  | nil =>
    rw [hpath] at hlast
    exact absurd (Option.some.inj hlast) hne
  | cons t path =>
    rw [hpath, List.getLast?_cons_cons] at hlast
    exact hlast

/-- The ancestors of a name, known or not, are the other names that its links lead to, each once
and each the supertype of the one before, the first that of the name. The walk that lists them meets
fewer names than there are types, also where the links run in a circle. Where all types are placed
and the links of a type meet none twice, its last ancestor is the universal type. -/
theorem ancestors_of_reached (hr : h.Reached) (x : Name) :
    (∀ t, t ∈ h.ancestors x ↔ t ≠ x ∧ h.Below x t) ∧ (h.ancestors x).Nodup ∧
    (x :: h.ancestors x).IsChain h.Under ∧ (h.ancestors x).length < h.types.length ∧
    ∀ g : TypeHierarchy, h = g.attachOrphans → x ∈ h.types → x ≠ objectType →
      (∀ path, (x :: path).IsChain h.Under → (x :: path).Nodup) →
      (h.ancestors x).getLast? = some objectType := by
  have hclimb := (climb_ancestors h x).1
  refine ⟨fun t => mem_ancestors_iff, hclimb.nodup.of_cons, hclimb.linked,
    hr.wellFormed.length_lt_of_climb hclimb, ?_⟩
  rintro g rfl hx hne hfree
  exact getLast?_ancestors hr.wellFormed hx hne hfree

/-- Crates stand on surfaces, and surfaces and racks on each other. A block is left to be placed. -/
def racks : TypeHierarchy :=
  ((((root.place "crate" "surface").place "surface" "rack").place "rack" "surface").declare
    "block").attachOrphans

/-- The walk from the crate runs into the circle, the walk from the rack stops where it started, and
the walk from the block ends at the universal type. -/
theorem ancestors_of_reached_racks : racks.Reached ∧
    racks.ancestors "crate" = ["surface", "rack"] ∧ racks.ancestors "rack" = ["surface"] ∧
    racks.Below "crate" "rack" ∧ racks.Below "rack" "surface" ∧
    (racks.ancestors "block").getLast? = some objectType := by
  have hr : racks.Reached :=
    .attachOrphans (.declare "block" (.assign "rack" "surface" (.assign "surface" "rack"
      (.assign "crate" "surface" .root))))
  have hcrate : racks.ancestors "crate" = ["surface", "rack"] := by decide +kernel
  have hrack : racks.ancestors "rack" = ["surface"] := by decide +kernel
  have hfree : ∀ path, ("block" :: path).IsChain racks.Under → ("block" :: path).Nodup := by
    have hblock : racks.parent "block" = some objectType := by decide
    intro path hpath
    cases path with
    | nil => exact List.nodup_singleton _
    | cons t path =>
      obtain ⟨hunder, hpath⟩ := List.isChain_cons_cons.mp hpath
      rw [Under, hblock] at hunder
      obtain rfl := Option.some.inj hunder
      cases path with
      | nil => decide
      | cons s path =>
        exact absurd (List.isChain_cons_cons.mp hpath).1 hr.wellFormed.not_under_objectType
  have hcrate' := ((ancestors_of_reached hr "crate").1 "rack").mp (by rw [hcrate]; decide)
  have hrack' := ((ancestors_of_reached hr "rack").1 "surface").mp (by rw [hrack]; decide)
  obtain ⟨-, -, -, -, hlast⟩ := ancestors_of_reached hr "block"
  exact ⟨hr, hcrate, hrack, hcrate'.2, hrack'.2, hlast _ rfl (by decide) (by decide) hfree⟩

end StripsReach.TypeHierarchy
