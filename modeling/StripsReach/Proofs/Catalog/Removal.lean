import StripsReach.Proofs.Catalog.Flattening
import StripsReach.Proofs.Refusal

/-!
# What flattening leaves out

A rule only takes objects away, and it takes them from the type that it names and from the types
above that one. So the list of a type is as it is without rules unless some rule leaves out a type
that lies right under the type itself or right under one below it. The rules count as a set: they
are asked one question only, which is whether a link is among them.
-/

namespace StripsReach.Catalog

open TypeHierarchy

/-- The rule leaves out a type that lies right under `t`, or right under a type below it. -/
def RuleReaches (h : TypeHierarchy) (rule : FlattenedSubtype) (t : Name) : Prop :=
  h.Under rule.subtype rule.type ∧ (rule.type = t ∨ h.Below rule.type t)

/-- The catalog knows the types of `plain` in their order. Each has some of the objects that it has
in `plain`, and all of them in the same order if no rule reaches it. -/
structure Removes (h : TypeHierarchy) (flattened : List FlattenedSubtype) (plain c : Catalog) :
    Prop where
  types_eq : c.entries.map Prod.fst = plain.entries.map Prod.fst
  nodup : ∀ t objects, c.objects? t = some objects → objects.Nodup
  subset : ∀ t objects, c.objects? t = some objects →
    ∃ others, plain.objects? t = some others ∧ objects ⊆ others
  eq_of_not_reached : ∀ t, (∀ rule ∈ flattened, ¬ RuleReaches h rule t) →
    c.objects? t = plain.objects? t

variable {h : TypeHierarchy} {declarations : TypedList} {flattened others : List FlattenedSubtype}
  {c plain : Catalog} {s t : Name} {rule : FlattenedSubtype} {objects : List Name}

/-! ### Rules as a set -/

theorem branches_congr (hsame : ∀ rule, rule ∈ flattened ↔ rule ∈ others) :
    branches h flattened t = branches h others t := by
  refine List.flatMap_congr fun subtype _ => ?_
  have hcontains : flattened.contains ⟨t, subtype⟩ = others.contains ⟨t, subtype⟩ := by
    rw [Bool.eq_iff_iff, List.contains_iff_mem, List.contains_iff_mem, hsame]
  rw [hcontains]

theorem closeType_congr (hsame : ∀ rule, rule ∈ flattened ↔ rule ∈ others) (path : List Name)
    (done : Catalog) (type : Name) :
    closeType h declarations flattened path done type =
      closeType h declarations others path done type := by
  induction path, done, type using closeType.induct h flattened with
  | case1 path done type hdone =>
    rw [closeType_eq, if_pos hdone, closeType_eq, if_pos hdone]
  | case2 path done type hdone hpath =>
    rw [closeType_eq, if_neg hdone, if_pos hpath, closeType_eq, if_neg hdone, if_pos hpath]
  | case3 path done type hdone hpath ih =>
    have hbranches : (branches h flattened type).foldlM
        (closeType h declarations flattened (type :: path)) done =
          (branches h flattened type).foldlM
            (closeType h declarations others (type :: path)) done :=
      foldlM_congr (fun branch hbranch done => ih done ⟨branch, hbranch⟩) done
    have hgather : ∀ done, gather h declarations flattened done type =
        gather h declarations others done type := by
      intro done
      rw [gather, branches_congr hsame, gather]
    rw [closeType_eq, if_neg hdone, if_neg hpath, hbranches, branches_congr hsame, closeType_eq,
      if_neg hdone, if_neg hpath]
    simp only [hgather]

theorem close_congr (hsame : ∀ rule, rule ∈ flattened ↔ rule ∈ others) :
    close h declarations flattened = close h declarations others := by
  have hclose : closeType (extended h declarations) declarations flattened [] =
      closeType (extended h declarations) declarations others [] := by
    funext done type
    exact closeType_congr hsame [] done type
  rw [close, hclose, close]

/-! ### Types that no rule reaches -/

theorem RuleReaches.of_under (hreaches : RuleReaches h rule s) (hunder : h.Under s t) :
    RuleReaches h rule t := by
  obtain ⟨hlink, heq | hbelow⟩ := hreaches
  · exact ⟨hlink, Or.inr (.single (heq ▸ hunder))⟩
  · exact ⟨hlink, Or.inr (hbelow.tail hunder)⟩

theorem branches_eq_subtypes (hw : h.WellFormed)
    (hfree : ∀ rule ∈ flattened, ¬ RuleReaches h rule t) :
    branches h flattened t = h.subtypes t := by
  have hkept : ∀ s ∈ h.subtypes t,
      (if flattened.contains ⟨t, s⟩ then h.subtypes s else [s]) = [s] := by
    intro s hs
    apply if_neg
    rw [List.contains_iff_mem]
    exact fun hrule => hfree _ hrule ⟨hw.mem_subtypes_iff.mp hs, Or.inl rfl⟩
  rw [branches, List.flatMap_congr hkept, List.flatMap_singleton']

namespace IsClosure

/-- What holds of a type holds of all that it takes over from, so the lists agree from below. -/
theorem objects?_eq_of_not_reached (hclosure : IsClosure h declarations flattened c)
    (hplain : IsClosure h declarations [] plain) (hw : h.WellFormed)
    (hfree : ∀ rule ∈ flattened, ¬ RuleReaches h rule t) : c.objects? t = plain.objects? t := by
  by_cases ht : t ∈ h.types
  · induction hplain.acc t ht with
    | intro t _ ih =>
      have hsubtypes : ∀ s ∈ h.subtypes t, c.objects? s = plain.objects? s := by
        intro s hs
        have hunder : h.Under s t := hw.mem_subtypes_iff.mp hs
        apply ih s
        · exact (feeds_nil hw).symm ▸ hunder
        · exact fun rule hrule hreaches => hfree rule hrule (hreaches.of_under hunder)
        · exact (hw.mem_types_of_under hunder).1
      obtain ⟨objects, hobjects⟩ := hclosure.exists_objects ht
      obtain ⟨others, hothers⟩ := hplain.exists_objects ht
      have hlists : ((h.subtypes t).flatMap fun s => (c.objects? s).getD []) =
          (h.subtypes t).flatMap fun s => (plain.objects? s).getD [] :=
        List.flatMap_congr fun s hs => by rw [hsubtypes s hs]
      rw [hobjects, hothers, hclosure.eq_gather t objects hobjects,
        hplain.eq_gather t others hothers, gather, gather, branches_eq_subtypes hw hfree,
        branches_nil, hlists]
  · have hunknown : c.objects? t = none := by
      rw [← Option.not_isSome_iff_eq_none, hclosure.isSome_iff]
      exact ht
    rw [hunknown, eq_comm, ← Option.not_isSome_iff_eq_none, hplain.isSome_iff]
    exact ht

/-! ### Fewer objects -/

/-- Whatever comes up to a type by the rules comes from below it. -/
theorem subset_plain (hclosure : IsClosure h declarations flattened c)
    (hplain : IsClosure h declarations [] plain) (hw : h.WellFormed)
    (ht : c.objects? t = some objects) :
    ∃ others, plain.objects? t = some others ∧ objects ⊆ others := by
  have hknown : t ∈ h.types :=
    (hclosure.isSome_iff t).mp (Option.isSome_iff_exists.mpr ⟨objects, ht⟩)
  obtain ⟨others, hothers⟩ := hplain.exists_objects hknown
  refine ⟨others, hothers, fun o ho => ?_⟩
  obtain ⟨type, hentry, hpath⟩ := (hclosure.mem_iff hw ht).mp ho
  have hbelow : type = t ∨ h.Below type t := by
    rcases Relation.reflTransGen_iff_eq_or_transGen.mp hpath with rfl | hfeeds
    · exact Or.inl rfl
    · exact Or.inr (Relation.TransGen.closed (fun _ _ => below_of_feeds hw) type t hfeeds)
  exact (hplain.mem_iff_below hw hothers).mpr ⟨type, hentry, hbelow⟩

end IsClosure

theorem types_of_close (hclose : close h declarations flattened = .ok c) :
    c.entries.map Prod.fst = (extended h declarations).types := by
  obtain ⟨done, -, -, rfl⟩ := exists_built_of_close hclose
  rw [inOrder, List.map_map]
  exact List.map_id _

theorem removes_of_close (hr : h.Reached) (hclose : close h declarations flattened = .ok c)
    (hplain : close h declarations [] = .ok plain) :
    Removes (extended h declarations) flattened plain c := by
  have hw : (extended h declarations).WellFormed := (reached_extended hr).wellFormed
  have hclosure := isClosure_of_close hr hclose
  have hwithout := isClosure_of_close hr hplain
  constructor
  · rw [types_of_close hclose, types_of_close hplain]
  · intro t objects ht
    exact hclosure.nodup ht
  · intro t objects ht
    exact hclosure.subset_plain hwithout hw ht
  · intro t hfree
    exact hclosure.objects?_eq_of_not_reached hwithout hw hfree

/-- Whether there is a catalog is up to the hierarchy alone. -/
theorem exists_close_iff (hr : h.Reached) :
    (∃ c, close h declarations flattened = .ok c) ↔ ∀ t, ¬ h.Below t t := by
  constructor
  · rintro ⟨c, hclose⟩ t
    exact not_below_self_of_close hr hclose
  · intro hacyclic
    cases hclose : close h declarations flattened with
    | ok c => exact ⟨c, rfl⟩
    | error fault =>
      obtain ⟨t, -, hcycle⟩ := below_self_of_close hr hclose
      exact absurd hcycle (hacyclic t)

/-- There is a catalog with the rules whenever there is one without, and it only has less: it keeps
the types, and takes objects away from types that some rule reaches. What lies right under a type is
meant after the types of the declarations have been placed, under the universal type if nowhere
else. Rules that are repeated or stand in another order make no difference. -/
theorem flattening_only_removes (hr : h.Reached) (declarations : TypedList)
    (flattened : List FlattenedSubtype) :
    ((∃ c, close h declarations flattened = .ok c) ↔
        ∃ plain, close h declarations [] = .ok plain) ∧
      (∀ c plain, close h declarations flattened = .ok c →
        close h declarations [] = .ok plain →
        Removes (extended h declarations) flattened plain c) ∧
      ∀ others, (∀ rule, rule ∈ flattened ↔ rule ∈ others) →
        close h declarations flattened = close h declarations others := by
  refine ⟨?_, fun c plain => removes_of_close hr, fun others => close_congr⟩
  rw [exists_close_iff hr, exists_close_iff hr]

/-- A surface without a pallet on it, and a pallet. -/
def stock : TypedList := [⟨"floor", "surface"⟩, ⟨"p", "pallet"⟩]

def stockCatalog : Catalog :=
  ⟨[("object", ["floor", "p"]), ("pallet", ["p"]), ("surface", ["floor", "p"]),
    ("locatable", ["floor", "p"])]⟩

/-- What is located is on pallets. -/
def palletCatalog : Catalog :=
  ⟨[("object", ["p"]), ("pallet", ["p"]), ("surface", ["floor", "p"]), ("locatable", ["p"])]⟩

/-- Leaving the surfaces out of what can be located takes away the floor there and further up, and
leaves the list of surfaces as it is. -/
theorem flattening_only_removes_stock : warehouse.Reached ∧
    close warehouse stock [] = .ok stockCatalog ∧
    close warehouse stock [⟨"locatable", "surface"⟩] = .ok palletCatalog ∧
    ["p"] ⊆ ["floor", "p"] ∧
    (∀ rule ∈ [FlattenedSubtype.mk "locatable" "surface"],
      ¬ RuleReaches (extended warehouse stock) rule "surface") ∧
    palletCatalog.objects? "surface" = stockCatalog.objects? "surface" ∧
    close warehouse stock [⟨"locatable", "surface"⟩, ⟨"locatable", "surface"⟩] =
      .ok palletCatalog := by
  have hplain : close warehouse stock [] = .ok stockCatalog := by decide +kernel
  have hclose : close warehouse stock [⟨"locatable", "surface"⟩] = .ok palletCatalog := by
    decide +kernel
  obtain ⟨-, hremoves, hcongr⟩ :=
    flattening_only_removes reached_warehouse stock [⟨"locatable", "surface"⟩]
  have hless : Removes (extended warehouse stock) [⟨"locatable", "surface"⟩] stockCatalog
      palletCatalog := hremoves palletCatalog stockCatalog hclose hplain
  have hfree : ∀ rule ∈ [FlattenedSubtype.mk "locatable" "surface"],
      ¬ RuleReaches (extended warehouse stock) rule "surface" := by
    intro rule hrule hreaches
    obtain rfl := List.mem_singleton.mp hrule
    obtain ⟨hunder, heq | hbelow⟩ := hreaches
    · exact absurd heq (by decide)
    · -- What can be located would lie below one of its subtypes.
      have hcycle : (extended warehouse stock).Below "surface" "surface" := .head hunder hbelow
      rw [below_self_extended_iff reached_warehouse] at hcycle
      exact not_below_self_of_close reached_warehouse hplain hcycle
  obtain ⟨others, hothers, hsubset⟩ := hless.subset "locatable" ["p"] (by decide)
  obtain rfl : ["floor", "p"] = others := Option.some.inj hothers
  refine ⟨reached_warehouse, hplain, hclose, hsubset, hfree, hless.eq_of_not_reached _ hfree, ?_⟩
  rw [← hclose, eq_comm]
  apply hcongr
  simp

end StripsReach.Catalog
