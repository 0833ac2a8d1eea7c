import Mathlib.Algebra.Group.Nat.Even
import StripsReach.Proofs.Catalog.Membership

/-!
# Objects lost to flattening

A rule leaves the objects of a type out of the type right above, and so they do not come further
up that way. They still get past it where a rule leaves out the upper type as well: the type above
both then takes over what lies right below the one that is left out. Of the flattened links that
follow each other on the way up from a type every second one thus makes up for the one before, and
the objects of the type come to the universal one exactly if the number of those links is even.
-/

namespace StripsReach.Catalog

open TypeHierarchy

/-- The way up from a type starts with `n` links that rules flatten, and the next link, if there is
one, is not flattened. -/
inductive FlattenedRun (h : TypeHierarchy) (flattened : List FlattenedSubtype) : Name → Nat → Prop
  | zero {t : Name} : (∀ upper, h.Under t upper → ⟨upper, t⟩ ∉ flattened) →
      FlattenedRun h flattened t 0
  | succ {t upper : Name} {n : Nat} : h.Under t upper → ⟨upper, t⟩ ∈ flattened →
      FlattenedRun h flattened upper n → FlattenedRun h flattened t (n + 1)

/-- The objects declared with `t` come to the universal type. -/
def ReachesTop (h : TypeHierarchy) (flattened : List FlattenedSubtype) (t : Name) : Prop :=
  Relation.ReflTransGen (Feeds h flattened) t objectType

variable {h : TypeHierarchy} {declarations : TypedList} {flattened : List FlattenedSubtype}
  {c : Catalog} {t upper top o : Name} {n : Nat}

theorem under_unique (hunder : h.Under t upper) (htop : h.Under t top) : upper = top :=
  Option.some.inj (hunder.symm.trans htop)

/-! ### Links that are passed and links that are jumped over -/

theorem feeds_of_not_flattened (hw : h.WellFormed) (hunder : h.Under t upper)
    (hrule : ⟨upper, t⟩ ∉ flattened) : Feeds h flattened t upper :=
  (feeds_iff hw).mpr ⟨t, hunder, by rw [if_neg hrule]⟩

theorem feeds_over_flattened (hw : h.WellFormed) (hunder : h.Under t upper)
    (htop : h.Under upper top) (hrule : ⟨top, upper⟩ ∈ flattened) : Feeds h flattened t top :=
  (feeds_iff hw).mpr ⟨upper, htop, by rwa [if_pos hrule]⟩

/-- Past a flattened link there is one way only, and it takes a second flattened link. -/
theorem flattened_of_feeds (hw : h.WellFormed) (hunder : h.Under t upper)
    (hrule : ⟨upper, t⟩ ∈ flattened) (hfeeds : Feeds h flattened t top) :
    h.Under upper top ∧ ⟨top, upper⟩ ∈ flattened := by
  obtain ⟨s, hs, ht⟩ := (feeds_iff hw).mp hfeeds
  split at ht
  · case isTrue hskip =>
    obtain rfl := under_unique hunder ht
    exact ⟨hs, hskip⟩
  · case isFalse hkeep =>
    subst ht
    obtain rfl := under_unique hunder hs
    exact absurd hrule hkeep

/-! ### Who reaches the universal type -/

/-- Of two types, one right under the other, at least one is taken over all the way up. -/
theorem reachesTop_or (hw : h.WellFormed) (hpath : Relation.ReflTransGen h.Under upper objectType)
    (hunder : h.Under t upper) : ReachesTop h flattened t ∨ ReachesTop h flattened upper := by
  induction hpath using Relation.ReflTransGen.head_induction_on generalizing t with
  | refl => exact Or.inr .refl
  | @head upper top htop _ ih =>
    rcases ih htop with hupper | htopReaches
    · exact Or.inr hupper
    · by_cases hrule : ⟨top, upper⟩ ∈ flattened
      · exact Or.inl (.head (feeds_over_flattened hw hunder htop hrule) htopReaches)
      · exact Or.inr (.head (feeds_of_not_flattened hw htop hrule) htopReaches)

/-- Of two types with a flattened link between them, at most one is. -/
theorem not_reachesTop_of_flattened (hw : h.WellFormed)
    (hpath : Relation.ReflTransGen h.Under upper objectType) (hunder : h.Under t upper)
    (hrule : ⟨upper, t⟩ ∈ flattened) (ht : ReachesTop h flattened t) :
    ¬ ReachesTop h flattened upper := by
  have hnext : ∃ top, Feeds h flattened t top ∧ ReachesTop h flattened top := by
    rcases ht.cases_head with rfl | hnext
    · exact absurd hunder hw.not_under_objectType
    · exact hnext
  induction hpath using Relation.ReflTransGen.head_induction_on generalizing t with
  | refl =>
    obtain ⟨top, hfeeds, -⟩ := hnext
    exact absurd (flattened_of_feeds hw hunder hrule hfeeds).1 hw.not_under_objectType
  | @head upper next hlink _ ih =>
    intro hupper
    obtain ⟨top, hfeeds, htop⟩ := hnext
    obtain ⟨hover, hskip⟩ := flattened_of_feeds hw hunder hrule hfeeds
    obtain rfl := under_unique hlink hover
    have hstep : ∃ top, Feeds h flattened upper top ∧ ReachesTop h flattened top := by
      rcases hupper.cases_head with rfl | hstep
      · exact absurd hover hw.not_under_objectType
      · exact hstep
    exact ih hover hskip hupper hstep htop

theorem reachesTop_iff_of_flattened (hw : h.WellFormed)
    (hpath : Relation.ReflTransGen h.Under upper objectType) (hunder : h.Under t upper)
    (hrule : ⟨upper, t⟩ ∈ flattened) :
    ReachesTop h flattened t ↔ ¬ ReachesTop h flattened upper :=
  ⟨not_reachesTop_of_flattened hw hpath hunder hrule,
    fun hupper => (reachesTop_or hw hpath hunder).resolve_right hupper⟩

theorem reachesTop_of_not_flattened (hw : h.WellFormed)
    (hpath : Relation.ReflTransGen h.Under t objectType)
    (hkept : ∀ upper, h.Under t upper → ⟨upper, t⟩ ∉ flattened) : ReachesTop h flattened t := by
  rcases hpath.cases_head with rfl | ⟨upper, hunder, hrest⟩
  · exact .refl
  · rcases reachesTop_or hw hrest hunder with ht | hupper
    · exact ht
    · exact .head (feeds_of_not_flattened hw hunder (hkept upper hunder)) hupper

/-- With every flattened link the answer turns round. -/
theorem reachesTop_iff_even (hw : h.WellFormed)
    (hpath : Relation.ReflTransGen h.Under t objectType) (hrun : FlattenedRun h flattened t n) :
    ReachesTop h flattened t ↔ Even n := by
  induction hrun with
  | zero hkept => exact iff_of_true (reachesTop_of_not_flattened hw hpath hkept) Even.zero
  | @succ t upper n hunder hrule _ ih =>
    have hrest : Relation.ReflTransGen h.Under upper objectType := by
      rcases hpath.cases_head with rfl | ⟨next, hnext, hrest⟩
      · exact absurd hunder hw.not_under_objectType
      · exact under_unique hunder hnext ▸ hrest
    rw [reachesTop_iff_of_flattened hw hrest hunder hrule, ih hrest, Nat.even_add_one]

theorem exists_flattenedRun (hw : h.WellFormed)
    (hpath : Relation.ReflTransGen h.Under t objectType) : ∃ n, FlattenedRun h flattened t n := by
  induction hpath using Relation.ReflTransGen.head_induction_on with
  | refl => exact ⟨0, .zero fun _ hunder => absurd hunder hw.not_under_objectType⟩
  | @head t upper hunder _ ih =>
    obtain ⟨n, hrun⟩ := ih
    by_cases hrule : ⟨upper, t⟩ ∈ flattened
    · exact ⟨n + 1, .succ hunder hrule hrun⟩
    · exact ⟨0, .zero fun top htop => under_unique hunder htop ▸ hrule⟩

/-! ### The objects of the universal type -/

theorem IsClosure.mem_all_iff_reachesTop (hclosure : IsClosure h declarations flattened c)
    (hw : h.WellFormed) :
    o ∈ c.all ↔ ∃ type, ⟨o, type⟩ ∈ declarations ∧ ReachesTop h flattened type := by
  obtain ⟨objects, hobjects⟩ := hclosure.exists_objects hw.objectType_mem
  rw [all, hobjects, Option.getD_some, hclosure.mem_iff hw hobjects]
  rfl

/-- A declared type has been placed, and its links lead up to the universal one. -/
theorem path_to_objectType_of_declared (hr : h.Reached)
    (hclose : close h declarations flattened = .ok c) (hentry : ⟨o, t⟩ ∈ declarations) :
    Relation.ReflTransGen (extended h declarations).Under t objectType := by
  have hw : (extended h declarations).WellFormed := (reached_extended hr).wellFormed
  have hknown : t ∈ (extended h declarations).types :=
    (mem_types_extended hr).mpr (Or.inr ⟨_, hentry, rfl⟩)
  have hacyclic := fun s => (isClosure_of_close hr hclose).not_below_self (t := s) hw
  rw [Relation.reflTransGen_iff_eq_or_transGen]
  exact (hw.below_objectType hacyclic (fun _ => exists_under_extended) hknown).imp_left Eq.symm

/-- An object belongs to the universal type exactly if one of the types that it is declared with
has an even number of flattened links in a row right above it. -/
theorem mem_all_iff_even_run (hr : h.Reached) (hclose : close h declarations flattened = .ok c)
    (o : Name) :
    o ∈ c.all ↔ ∃ type n, ⟨o, type⟩ ∈ declarations ∧
      FlattenedRun (extended h declarations) flattened type n ∧ Even n := by
  have hw : (extended h declarations).WellFormed := (reached_extended hr).wellFormed
  rw [(isClosure_of_close hr hclose).mem_all_iff_reachesTop hw]
  constructor
  · rintro ⟨type, hentry, hreaches⟩
    have hpath := path_to_objectType_of_declared hr hclose hentry
    obtain ⟨n, hrun⟩ : ∃ n, FlattenedRun (extended h declarations) flattened type n :=
      exists_flattenedRun hw hpath
    exact ⟨type, n, hentry, hrun, (reachesTop_iff_even hw hpath hrun).mp hreaches⟩
  · rintro ⟨type, n, hentry, hrun, heven⟩
    have hpath := path_to_objectType_of_declared hr hclose hentry
    exact ⟨type, hentry, (reachesTop_iff_even hw hpath hrun).mpr heven⟩

def warehouse : TypeHierarchy := (root.place "pallet" "surface").place "surface" "locatable"

theorem reached_warehouse : warehouse.Reached :=
  (Reached.root.assign "pallet" "surface").assign "surface" "locatable"

def floorCatalog : Catalog :=
  ⟨[("object", ["p"]), ("pallet", ["p"]), ("surface", ["floor"]), ("locatable", ["p"])]⟩

/-- Two rules stand in a row above pallets, so these reach the universal type, and one above the
surface itself, so that does not. -/
theorem mem_all_iff_even_run_warehouse :
    close warehouse [⟨"p", "pallet"⟩, ⟨"floor", "surface"⟩]
        [⟨"surface", "pallet"⟩, ⟨"locatable", "surface"⟩] = .ok floorCatalog ∧
      warehouse.Reached ∧
      ∀ o, o ∈ ["p"] ↔ ∃ type n, ⟨o, type⟩ ∈ [⟨"p", "pallet"⟩, Typed.mk "floor" "surface"] ∧
        FlattenedRun (extended warehouse [⟨"p", "pallet"⟩, ⟨"floor", "surface"⟩])
          [⟨"surface", "pallet"⟩, ⟨"locatable", "surface"⟩] type n ∧ Even n := by
  have hclose : close warehouse [⟨"p", "pallet"⟩, ⟨"floor", "surface"⟩]
      [⟨"surface", "pallet"⟩, ⟨"locatable", "surface"⟩] = .ok floorCatalog := by decide +kernel
  exact ⟨hclose, reached_warehouse, mem_all_iff_even_run reached_warehouse hclose⟩

/-- A rule about two other types keeps an object from the universal one. -/
theorem floor_not_mem_all : ∃ c : Catalog, warehouse.Reached ∧
    close warehouse [⟨"floor", "surface"⟩] [⟨"locatable", "surface"⟩] = .ok c ∧
    "floor" ∈ TypedList.values [⟨"floor", "surface"⟩] ∧ "floor" ∉ c.all := by
  refine ⟨⟨[("object", []), ("pallet", []), ("surface", ["floor"]), ("locatable", [])]⟩,
    reached_warehouse, ?_, ?_, ?_⟩
  · decide +kernel
  · decide
  · decide

end StripsReach.Catalog
