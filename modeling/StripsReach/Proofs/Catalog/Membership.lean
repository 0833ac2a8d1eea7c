import StripsReach.Proofs.Catalog.Cycles
import StripsReach.Proofs.FirstOccurrences

/-!
# Which objects belong to a type

In a catalog an object belongs to a type if the type it is declared with leads there by types that
take over from each other. Without flattening rules these are the supertypes, so an object belongs
to the types it is declared with and to all above them, and the universal type has every object.
-/

namespace StripsReach.Catalog

open TypeHierarchy

variable {h : TypeHierarchy} {declarations : TypedList} {flattened : List FlattenedSubtype}
  {c : Catalog} {t o : Name} {objects : List Name}

theorem mem_declared : o ∈ declared declarations t ↔ ⟨o, t⟩ ∈ declarations := by
  simp only [declared, List.mem_map, List.mem_filter, decide_eq_true_eq]
  constructor
  · rintro ⟨entry, ⟨hentry, rfl⟩, rfl⟩
    exact hentry
  · exact fun hentry => ⟨_, ⟨hentry, rfl⟩, rfl⟩

/-- Types are given declared objects only. -/
theorem Built.mem_values (hbuilt : Built h declarations flattened c)
    (ht : c.objects? t = some objects) (ho : o ∈ objects) : o ∈ declarations.values := by
  induction hbuilt generalizing t objects with
  | empty => simp [objects?] at ht
  | @put done type _ _ _ ih =>
    rw [objects?_put] at ht
    split at ht
    · obtain rfl := Option.some.inj ht
      rw [gather, List.mem_eraseDups, List.mem_append, mem_declared, List.mem_flatMap] at ho
      rcases ho with hown | ⟨branch, -, hbranch⟩
      · exact List.mem_map_of_mem hown
      · cases hothers : done.objects? branch with
        | none => simp [hothers] at hbranch
        | some others => exact ih hothers (by simpa [hothers] using hbranch)
    · exact ih ht ho

theorem mem_values_of_close (hclose : close h declarations flattened = .ok c)
    (ht : c.objects? t = some objects) (ho : o ∈ objects) : o ∈ declarations.values := by
  obtain ⟨done, hbuilt, hlisted, rfl⟩ := exists_built_of_close hclose
  have hknown : t ∈ (extended h declarations).types :=
    isSome_objects?_inOrder.mp (Option.isSome_iff_exists.mpr ⟨objects, ht⟩)
  rw [objects?_inOrder hknown (hlisted t hknown)] at ht
  exact hbuilt.mem_values ht ho

/-- Whatever the hierarchy, no type has an object twice. -/
theorem nodup_of_close (hclose : close h declarations flattened = .ok c)
    (ht : c.objects? t = some objects) : objects.Nodup := by
  obtain ⟨done, hbuilt, hlisted, rfl⟩ := exists_built_of_close hclose
  have hknown : t ∈ (extended h declarations).types :=
    isSome_objects?_inOrder.mp (Option.isSome_iff_exists.mpr ⟨objects, ht⟩)
  rw [objects?_inOrder hknown (hlisted t hknown)] at ht
  rw [(hbuilt.listed ht).1, gather]
  exact nodup_eraseDups _

namespace IsClosure

theorem exists_objects (hclosure : IsClosure h declarations flattened c) (ht : t ∈ h.types) :
    ∃ objects, c.objects? t = some objects :=
  Option.isSome_iff_exists.mp ((hclosure.isSome_iff t).mpr ht)

theorem nodup (hclosure : IsClosure h declarations flattened c)
    (ht : c.objects? t = some objects) : objects.Nodup := by
  rw [hclosure.eq_gather t objects ht, gather]
  exact nodup_eraseDups _

theorem nodup_all (hclosure : IsClosure h declarations flattened c) : c.all.Nodup := by
  rw [all]
  cases hobject : c.objects? objectType with
  | none => exact List.nodup_nil
  | some objects => exact hclosure.nodup hobject

/-- The objects of a type are its own and those of the types that it takes over from. -/
theorem mem_iff_of_feeds (hclosure : IsClosure h declarations flattened c) (hw : h.WellFormed)
    (ht : c.objects? t = some objects) : o ∈ objects ↔ ⟨o, t⟩ ∈ declarations ∨
      ∃ branch, Feeds h flattened branch t ∧
        ∃ others, c.objects? branch = some others ∧ o ∈ others := by
  rw [hclosure.eq_gather t objects ht, gather, List.mem_eraseDups, List.mem_append, mem_declared,
    List.mem_flatMap]
  refine or_congr_right (exists_congr fun branch => and_congr_right fun hfeeds => ?_)
  obtain ⟨others, hothers⟩ := hclosure.exists_objects (mem_types_of_feeds hw hfeeds)
  simp [hothers]

theorem mem_iff (hclosure : IsClosure h declarations flattened c) (hw : h.WellFormed)
    (ht : c.objects? t = some objects) : o ∈ objects ↔
      ∃ type, ⟨o, type⟩ ∈ declarations ∧ Relation.ReflTransGen (Feeds h flattened) type t := by
  have hknown : t ∈ h.types :=
    (hclosure.isSome_iff t).mp (Option.isSome_iff_exists.mpr ⟨objects, ht⟩)
  -- The objects come up from the types below, which end somewhere.
  induction hclosure.acc t hknown generalizing objects with
  | intro t _ ih =>
    have hmem_branch : ∀ branch others, Feeds h flattened branch t →
        c.objects? branch = some others → (o ∈ others ↔ ∃ type, ⟨o, type⟩ ∈ declarations ∧
          Relation.ReflTransGen (Feeds h flattened) type branch) :=
      fun branch others hfeeds hothers =>
        ih branch hfeeds hothers (mem_types_of_feeds hw hfeeds)
    rw [hclosure.mem_iff_of_feeds hw ht]
    constructor
    · rintro (hown | ⟨branch, hfeeds, others, hothers, ho⟩)
      · exact ⟨t, hown, .refl⟩
      · obtain ⟨type, hentry, hpath⟩ := (hmem_branch branch others hfeeds hothers).mp ho
        exact ⟨type, hentry, hpath.tail hfeeds⟩
    · rintro ⟨type, hentry, hpath⟩
      rcases hpath.cases_tail with rfl | ⟨branch, hpath, hfeeds⟩
      · exact Or.inl hentry
      · obtain ⟨others, hothers⟩ := hclosure.exists_objects (mem_types_of_feeds hw hfeeds)
        exact Or.inr ⟨branch, hfeeds, others, hothers,
          (hmem_branch branch others hfeeds hothers).mpr ⟨type, hentry, hpath⟩⟩

end IsClosure

/-! ### Without flattening rules -/

theorem branches_nil : branches h [] t = h.subtypes t := List.flatMap_singleton' _

theorem feeds_nil (hw : h.WellFormed) : Feeds h [] = h.Under := by
  funext lower upper
  rw [Feeds, branches_nil, hw.mem_subtypes_iff]

/-- The objects of a type are those declared with it or with a type below it. -/
theorem IsClosure.mem_iff_below (hclosure : IsClosure h declarations [] c) (hw : h.WellFormed)
    (ht : c.objects? t = some objects) :
    o ∈ objects ↔ ∃ type, ⟨o, type⟩ ∈ declarations ∧ (type = t ∨ h.Below type t) := by
  rw [hclosure.mem_iff hw ht, feeds_nil hw]
  simp only [Relation.reflTransGen_iff_eq_or_transGen, Below, eq_comm]

/-- Every object is declared with a type that is the universal one or below it. -/
theorem mem_all_iff (hr : h.Reached) (hclose : close h declarations [] = .ok c) :
    o ∈ c.all ↔ o ∈ declarations.values := by
  have hclosure := isClosure_of_close hr hclose
  have hw : (extended h declarations).WellFormed := (reached_extended hr).wellFormed
  obtain ⟨objects, hobjects⟩ := hclosure.exists_objects hw.objectType_mem
  rw [all, hobjects, Option.getD_some, hclosure.mem_iff_below hw hobjects, TypedList.values,
    List.mem_map]
  constructor
  · rintro ⟨type, hentry, -⟩
    exact ⟨_, hentry, rfl⟩
  · rintro ⟨entry, hentry, rfl⟩
    refine ⟨entry.type, hentry, ?_⟩
    exact hw.below_objectType (fun _ => hclosure.not_below_self hw)
      (fun _ => exists_under_extended)
      ((mem_types_extended hr).mpr (Or.inr ⟨entry, hentry, rfl⟩))

/-- The catalog knows the types of the extended hierarchy. An object belongs to the types that it
is declared with and to their supertypes there, and is listed once: in the order of declaration if
it is declared with the type itself, and else after those, with the first subtype that has it. -/
theorem objects_of_close (hr : h.Reached) (hclose : close h declarations [] = .ok c) :
    (∀ t, (c.objects? t).isSome ↔ t ∈ (extended h declarations).types) ∧
      (∀ t objects, c.objects? t = some objects →
        (∀ o, o ∈ objects ↔ ∃ type, ⟨o, type⟩ ∈ declarations ∧
          (type = t ∨ (extended h declarations).Below type t)) ∧
        objects.Nodup ∧
        objects = (declared declarations t ++ ((extended h declarations).subtypes t).flatMap
          fun subtype => (c.objects? subtype).getD []).eraseDups) ∧
      c.all.Nodup ∧ ∀ o, o ∈ c.all ↔ o ∈ declarations.values := by
  have hclosure := isClosure_of_close hr hclose
  have hw : (extended h declarations).WellFormed := (reached_extended hr).wellFormed
  refine ⟨hclosure.isSome_iff, fun t objects ht => ⟨fun o => ?_, ?_, ?_⟩, ?_, fun o => ?_⟩
  · exact hclosure.mem_iff_below hw ht
  · exact hclosure.nodup ht
  · rw [hclosure.eq_gather t objects ht, gather, branches_nil]
  · exact hclosure.nodup_all
  · exact mem_all_iff hr hclose

def fleet : TypeHierarchy := root.place "truck" "vehicle"

/-- One object has two types, and one has a type that only its declaration names. -/
def cargo : TypedList := [⟨"t1", "truck"⟩, ⟨"p", "parcel"⟩, ⟨"t2", "vehicle"⟩, ⟨"t1", "vehicle"⟩]

def fleetCatalog : Catalog :=
  ⟨[("object", ["t2", "t1", "p"]), ("truck", ["t1"]), ("vehicle", ["t2", "t1"]), ("parcel", ["p"])]⟩

theorem objects_of_close_fleet : fleet.Reached ∧ close fleet cargo [] = .ok fleetCatalog ∧
    (∀ o, o ∈ ["t2", "t1"] ↔ ∃ type, ⟨o, type⟩ ∈ cargo ∧
      (type = "vehicle" ∨ (extended fleet cargo).Below type "vehicle")) ∧
    ∀ o, o ∈ fleetCatalog.all ↔ o ∈ cargo.values := by
  have hr : fleet.Reached := Reached.root.assign "truck" "vehicle"
  have hclose : close fleet cargo [] = .ok fleetCatalog := by decide +kernel
  obtain ⟨-, hlists, -, hall⟩ := objects_of_close hr hclose
  exact ⟨hr, hclose, (hlists "vehicle" ["t2", "t1"] (by decide)).1, hall⟩

end StripsReach.Catalog
