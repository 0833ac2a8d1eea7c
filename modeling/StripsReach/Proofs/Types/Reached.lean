import Mathlib.Data.List.Basic
import Mathlib.Data.List.Nodup
import StripsReach.Catalog

/-!
# Hierarchies in use

A hierarchy starts with the universal type alone and grows by declarations, by assignments and by
placing what was left without a supertype. It keeps the types in their order, a list of subtypes
for each type and the supertypes, and every operation that changes one of the three has to change
the others with it. `WellFormed` says that they are in step, and `Reached.wellFormed` that they are
so however the operations follow each other.
-/

namespace StripsReach.TypeHierarchy

variable {h : TypeHierarchy} {name s t upper : Name} {names : List Name}

/-- The hierarchies that the operations on them lead to. -/
inductive Reached : TypeHierarchy → Prop
  | root : Reached root
  | declare {h : TypeHierarchy} (name : Name) : Reached h → Reached (h.declare name)
  | assign {h : TypeHierarchy} (subtype supertype : Name) :
      Reached h → Reached (h.assign subtype supertype).2
  | attachOrphans {h : TypeHierarchy} : Reached h → Reached h.attachOrphans

theorem Reached.place (hr : h.Reached) (t upper : Name) : (h.place t upper).Reached :=
  hr.assign t upper

/-- Every type is listed once, the universal one first, and has a list of subtypes. These lists and
the supertypes tell the same, of known types only, and the universal type has no supertype. -/
structure WellFormed (h : TypeHierarchy) : Prop where
  head : h.types.head? = some objectType
  nodup : h.types.Nodup
  keys_eq : h.children.map Prod.fst = h.types
  mem_subtypes : ∀ lower upper, lower ∈ h.subtypes upper ↔ h.parent lower = some upper
  nodup_subtypes : ∀ upper, (h.subtypes upper).Nodup
  known : ∀ lower upper, h.parent lower = some upper → lower ∈ h.types ∧ upper ∈ h.types
  rooted : h.parent objectType = none

theorem contains_iff_mem_keys : h.contains t = true ↔ t ∈ h.children.map Prod.fst := by
  rw [contains, List.lookup_isSome_iff, List.mem_map]
  exact exists_congr fun entry => and_congr_right fun _ => beq_iff_eq.trans eq_comm

theorem WellFormed.contains_iff (hw : h.WellFormed) : h.contains t = true ↔ t ∈ h.types := by
  rw [contains_iff_mem_keys, hw.keys_eq]

theorem WellFormed.objectType_mem (hw : h.WellFormed) : objectType ∈ h.types :=
  List.mem_of_mem_head? hw.head

theorem isOpen_iff : h.isOpen t = true ↔ t ≠ objectType ∧ h.parent t = none := by
  simp [isOpen]

/-! ### Declaring -/

theorem declare_of_contains (hname : h.contains name = true) : h.declare name = h := if_pos hname

theorem declare_of_not_contains (hname : ¬ h.contains name = true) :
    h.declare name = ⟨h.types ++ [name], h.children ++ [(name, [])], h.parents⟩ := if_neg hname

@[simp] theorem parent_declare : (h.declare name).parent t = h.parent t := by
  unfold declare
  split <;> rfl

@[simp] theorem isOpen_declare : (h.declare name).isOpen t = h.isOpen t := by
  rw [isOpen, parent_declare, isOpen]

/-- A type that becomes known has no subtypes, as an unknown one. -/
@[simp] theorem subtypes_declare : (h.declare name).subtypes t = h.subtypes t := by
  by_cases hname : h.contains name = true
  · rw [declare_of_contains hname]
  · rw [declare_of_not_contains hname, subtypes, List.lookup_append, subtypes]
    cases h.children.lookup t with
    | some below => rfl
    | none => by_cases ht : t = name <;> simp [List.lookup_cons, ht, beq_false_of_ne]

theorem contains_declare :
    (h.declare name).contains t = true ↔ h.contains t = true ∨ t = name := by
  by_cases hname : h.contains name = true
  · rw [declare_of_contains hname]
    exact ⟨Or.inl, fun ht => ht.elim id fun ht => ht ▸ hname⟩
  · rw [declare_of_not_contains hname, contains_iff_mem_keys, contains_iff_mem_keys]
    simp

theorem mem_types_of_declare (ht : t ∈ (h.declare name).types) : t ∈ h.types ∨ t = name := by
  by_cases hname : h.contains name = true
  · rw [declare_of_contains hname] at ht
    exact Or.inl ht
  · rw [declare_of_not_contains hname] at ht
    simpa using ht

theorem WellFormed.declare (hw : h.WellFormed) (name : Name) : (h.declare name).WellFormed := by
  by_cases hname : h.contains name = true
  · rwa [declare_of_contains hname]
  have hnew : name ∉ h.types := fun hmem => hname (hw.contains_iff.mpr hmem)
  have hdeclare := declare_of_not_contains hname
  constructor
  · rw [hdeclare, List.head?_append, hw.head, Option.some_or]
  · rw [hdeclare]
    exact List.concat_eq_append ▸ hw.nodup.concat hnew
  · rw [hdeclare, List.map_append, hw.keys_eq]
    rfl
  · intro lower upper
    rw [subtypes_declare, parent_declare, hw.mem_subtypes]
  · intro upper
    rw [subtypes_declare]
    exact hw.nodup_subtypes upper
  · intro lower upper hparent
    rw [parent_declare] at hparent
    rw [hdeclare]
    obtain ⟨hlower, hupper⟩ := hw.known lower upper hparent
    exact ⟨List.mem_append_left _ hlower, List.mem_append_left _ hupper⟩
  · rw [parent_declare, hw.rooted]

theorem WellFormed.mem_types_declare (hw : h.WellFormed) :
    t ∈ (h.declare name).types ↔ t ∈ h.types ∨ t = name := by
  rw [← (hw.declare name).contains_iff, contains_declare, hw.contains_iff]

/-! ### Recording a supertype -/

theorem parent_record :
    (h.record t upper).parent s = if s = t then some upper else h.parent s := by
  by_cases hs : s = t <;> simp [parent, record, List.lookup_cons, hs, beq_false_of_ne]

/-- Every type keeps its list, and that of `upper` gets one type more. -/
theorem lookup_children_record : (h.record t upper).children.lookup s =
    (h.children.lookup s).map fun below => if s = upper then below ++ [t] else below := by
  unfold record
  induction h.children with
  | nil => rfl
  | cons entry children ih =>
    rw [List.map_cons, List.lookup_cons, List.lookup_cons]
    by_cases hs : s = entry.1
    · simp [hs]
    · rw [beq_false_of_ne hs]
      exact ih

theorem subtypes_record (hupper : h.contains upper = true) :
    (h.record t upper).subtypes s = h.subtypes s ++ if upper = s then [t] else [] := by
  obtain ⟨below, hbelow⟩ := Option.isSome_iff_exists.mp hupper
  rw [subtypes, lookup_children_record, subtypes]
  by_cases hs : upper = s
  · subst hs
    simp [hbelow]
  · cases h.children.lookup s <;> simp [hs, Ne.symm hs]

theorem WellFormed.not_mem_subtypes (hw : h.WellFormed) (hnone : h.parent t = none) :
    t ∉ h.subtypes s := by
  rw [hw.mem_subtypes, hnone]
  exact nofun

/-- Both sides tell of a new supertype, if the type had none. -/
theorem WellFormed.record (hw : h.WellFormed) (hopen : h.isOpen t = true)
    (ht : t ∈ h.types) (hupper : upper ∈ h.types) : (h.record t upper).WellFormed := by
  obtain ⟨hne, hnone⟩ := isOpen_iff.mp hopen
  have hsubtypes : ∀ s, (h.record t upper).subtypes s =
      h.subtypes s ++ if upper = s then [t] else [] :=
    fun s => subtypes_record (hw.contains_iff.mpr hupper)
  constructor
  · exact hw.head
  · exact hw.nodup
  · show (h.children.map _).map Prod.fst = h.types
    rw [List.map_map, ← hw.keys_eq]
    rfl
  · intro lower s
    rw [hsubtypes, List.mem_append, hw.mem_subtypes, parent_record]
    by_cases hlower : lower = t
    · subst hlower
      by_cases hs : upper = s <;> simp [hs, hnone]
    · by_cases hs : upper = s <;> simp [hs, hlower]
  · intro s
    rw [hsubtypes]
    by_cases hs : upper = s
    · rw [if_pos hs]
      exact List.concat_eq_append ▸ (hw.nodup_subtypes s).concat (hw.not_mem_subtypes hnone)
    · rw [if_neg hs, List.append_nil]
      exact hw.nodup_subtypes s
  · intro lower s hparent
    rw [parent_record] at hparent
    split at hparent
    · case isTrue hlower =>
      obtain rfl := Option.some.inj hparent
      exact ⟨hlower ▸ ht, hupper⟩
    · exact hw.known lower s hparent
  · rw [parent_record, if_neg (Ne.symm hne), hw.rooted]

/-! ### Assigning supertypes -/

/-- An assignment makes both types known, and then records the supertype of a type that can be
given one. -/
theorem assign_eq : h.assign t upper = (h.isOpen t, if h.isOpen t = true
    then ((h.declare t).declare upper).record t upper else (h.declare t).declare upper) := by
  rw [assign]
  simp only [isOpen_declare]
  cases h.isOpen t <;> rfl

theorem place_eq : h.place t upper = if h.isOpen t = true
    then ((h.declare t).declare upper).record t upper else (h.declare t).declare upper := by
  rw [place, assign_eq]

/-- An assignment that comes too late, or is one of the universal type, places nothing. -/
theorem parent_place : (h.place t upper).parent s =
    if h.isOpen t = true ∧ s = t then some upper else h.parent s := by
  rw [place_eq]
  by_cases hopen : h.isOpen t = true
  · rw [if_pos hopen, parent_record, parent_declare, parent_declare]
    simp only [hopen, true_and]
  · rw [if_neg hopen, parent_declare, parent_declare, if_neg fun h => hopen h.1]

theorem subtypes_place : (h.place t upper).subtypes s =
    h.subtypes s ++ if h.isOpen t = true ∧ upper = s then [t] else [] := by
  have hupper : ((h.declare t).declare upper).contains upper = true :=
    contains_declare.mpr (Or.inr rfl)
  rw [place_eq]
  by_cases hopen : h.isOpen t = true
  · rw [if_pos hopen, subtypes_record hupper, subtypes_declare, subtypes_declare]
    simp only [hopen, true_and]
  · rw [if_neg hopen, subtypes_declare, subtypes_declare, if_neg fun h => hopen h.1,
      List.append_nil]

theorem types_place : (h.place t upper).types = ((h.declare t).declare upper).types := by
  rw [place_eq]
  split <;> rfl

theorem mem_types_of_place (hs : s ∈ (h.place t upper).types) :
    s ∈ h.types ∨ s = t ∨ s = upper := by
  rw [types_place] at hs
  rcases mem_types_of_declare hs with hs | hs
  · exact (mem_types_of_declare hs).imp_right Or.inl
  · exact Or.inr (Or.inr hs)

theorem WellFormed.mem_types_place (hw : h.WellFormed) :
    s ∈ (h.place t upper).types ↔ s ∈ h.types ∨ s = t ∨ s = upper := by
  rw [types_place, (hw.declare t).mem_types_declare, hw.mem_types_declare, or_assoc]

theorem WellFormed.place (hw : h.WellFormed) (t upper : Name) : (h.place t upper).WellFormed := by
  have hknown : ((h.declare t).declare upper).WellFormed := (hw.declare t).declare upper
  rw [place_eq]
  split
  · case isTrue hopen =>
    refine hknown.record ?_ ?_ ?_
    · rwa [isOpen_declare, isOpen_declare]
    · exact (hw.declare t).mem_types_declare.mpr (Or.inl (hw.mem_types_declare.mpr (Or.inr rfl)))
    · exact (hw.declare t).mem_types_declare.mpr (Or.inr rfl)
  · exact hknown

/-! ### Placing types one after another -/

theorem WellFormed.foldl_place (hw : h.WellFormed) (names : List Name) (upper : Name) :
    (names.foldl (·.place · upper) h).WellFormed := by
  induction names generalizing h with
  | nil => exact hw
  | cons name names ih => exact ih (hw.place name upper)

/-- The names that have no supertype yet get one. -/
theorem parent_foldl_place : (names.foldl (·.place · upper) h).parent t =
    (h.parent t).or (if t ∈ names ∧ t ≠ objectType then some upper else none) := by
  induction names generalizing h with
  | nil => simp
  | cons name names ih =>
    rw [List.foldl_cons, ih, parent_place]
    by_cases hname : t = name
    · subst hname
      cases hparent : h.parent t with
      | none => by_cases hobject : t = objectType <;> simp [isOpen_iff, hparent, hobject]
      | some other => simp [isOpen_iff, hparent]
    · simp [hname]

theorem mem_types_of_foldl_place (ht : t ∈ (names.foldl (·.place · upper) h).types) :
    t ∈ h.types ∨ t ∈ names ∨ t = upper := by
  induction names generalizing h with
  | nil => exact Or.inl ht
  | cons name names ih =>
    rcases ih ht with ht | ht | ht
    · rcases mem_types_of_place ht with ht | rfl | ht
      · exact Or.inl ht
      · exact Or.inr (Or.inl List.mem_cons_self)
      · exact Or.inr (Or.inr ht)
    · exact Or.inr (Or.inl (List.mem_cons_of_mem name ht))
    · exact Or.inr (Or.inr ht)

theorem WellFormed.types_foldl_place (hw : h.WellFormed) (hnames : ∀ name ∈ names, name ∈ h.types)
    (hupper : upper ∈ h.types) : (names.foldl (·.place · upper) h).types = h.types := by
  induction names generalizing h with
  | nil => rfl
  | cons name names ih =>
    have hname : name ∈ h.types := hnames name List.mem_cons_self
    have htypes : (h.place name upper).types = h.types := by
      rw [types_place, declare_of_contains (hw.contains_iff.mpr hname),
        declare_of_contains (hw.contains_iff.mpr hupper)]
    rw [List.foldl_cons, ih (hw.place name upper), htypes]
    · exact fun other hother => htypes ▸ hnames other (List.mem_cons_of_mem name hother)
    · exact htypes ▸ hupper

/-! ### Placing what is left -/

theorem WellFormed.attachOrphans (hw : h.WellFormed) : h.attachOrphans.WellFormed :=
  hw.foldl_place _ _

theorem WellFormed.types_attachOrphans (hw : h.WellFormed) : h.attachOrphans.types = h.types :=
  hw.types_foldl_place (fun _ hname => (List.mem_filter.mp hname).1) hw.objectType_mem

theorem mem_types_of_attachOrphans (ht : t ∈ h.attachOrphans.types) :
    t ∈ h.types ∨ t = objectType := by
  rcases mem_types_of_foldl_place ht with ht | ht | ht
  · exact Or.inl ht
  · exact Or.inl (List.mem_filter.mp ht).1
  · exact Or.inr ht

/-- Afterwards exactly the universal type and unknown names are without a supertype. -/
theorem parent_attachOrphans : h.attachOrphans.parent t =
    (h.parent t).or (if t ∈ h.types ∧ t ≠ objectType then some objectType else none) := by
  rw [TypeHierarchy.attachOrphans, parent_foldl_place]
  cases hparent : h.parent t with
  | some upper => rfl
  | none => simp [List.mem_filter, isOpen_iff, hparent]

theorem exists_parent_attachOrphans (ht : t ∈ h.attachOrphans.types) (hne : t ≠ objectType) :
    ∃ upper, h.attachOrphans.parent t = some upper := by
  have hknown : t ∈ h.types := (mem_types_of_attachOrphans ht).resolve_right hne
  rw [parent_attachOrphans, if_pos ⟨hknown, hne⟩]
  cases h.parent t with
  | none => exact ⟨objectType, rfl⟩
  | some upper => exact ⟨upper, rfl⟩

/-! ### Every run of operations -/

theorem subtypes_root : root.subtypes t = [] := by
  by_cases ht : t = objectType <;> simp [subtypes, root, List.lookup_cons, ht, beq_false_of_ne]

theorem wellFormed_root : root.WellFormed where
  head := rfl
  nodup := List.nodup_singleton _
  keys_eq := rfl
  mem_subtypes lower upper := by
    rw [subtypes_root]
    exact iff_of_false List.not_mem_nil nofun
  nodup_subtypes upper := by
    rw [subtypes_root]
    exact List.nodup_nil
  known := nofun
  rooted := rfl

theorem Reached.wellFormed (hr : h.Reached) : h.WellFormed := by
  induction hr with
  | root => exact wellFormed_root
  | declare name _ ih => exact ih.declare name
  | assign subtype supertype _ ih => exact ih.place subtype supertype
  | attachOrphans _ ih => exact ih.attachOrphans

end StripsReach.TypeHierarchy

/-! ### The hierarchy that a catalog is closed over -/

namespace StripsReach.Catalog

open TypeHierarchy

variable {h : TypeHierarchy} {declarations : TypedList} {t : Name}

/-- The known types and those that declarations name, before any of them is placed. -/
def withDeclared (h : TypeHierarchy) (declarations : TypedList) : TypeHierarchy :=
  declarations.foldl (fun h entry => h.declare entry.type) h

theorem extended_eq : extended h declarations = (withDeclared h declarations).attachOrphans := rfl

theorem withDeclared_cons {entry : Typed} : withDeclared h (entry :: declarations) =
    withDeclared (h.declare entry.type) declarations := rfl

theorem parent_withDeclared : (withDeclared h declarations).parent t = h.parent t := by
  induction declarations generalizing h with
  | nil => rfl
  | cons entry declarations ih => rw [withDeclared_cons, ih, parent_declare]

theorem reached_withDeclared (hr : h.Reached) : (withDeclared h declarations).Reached := by
  induction declarations generalizing h with
  | nil => exact hr
  | cons entry declarations ih => exact ih (hr.declare entry.type)

theorem reached_extended (hr : h.Reached) : (extended h declarations).Reached :=
  .attachOrphans (reached_withDeclared hr)

theorem mem_types_extended (hr : h.Reached) : t ∈ (extended h declarations).types ↔
    t ∈ h.types ∨ ∃ entry ∈ declarations, t = entry.type := by
  rw [extended_eq, (reached_withDeclared hr).wellFormed.types_attachOrphans]
  induction declarations generalizing h with
  | nil => simp [withDeclared]
  | cons entry declarations ih =>
    rw [withDeclared_cons, ih (hr.declare entry.type), hr.wellFormed.mem_types_declare,
      List.exists_mem_cons_iff, or_assoc]

end StripsReach.Catalog
