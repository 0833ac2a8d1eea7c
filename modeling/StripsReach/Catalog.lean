import StripsReach.TypeHierarchy
import StripsReach.TypedList

/-!
# Object catalogs

Which objects belong to which type. An object belongs to the type it is declared with and to
every type above that one, so the universal type holds them all. Flattening rules are exceptions:
where one names a type and a type right under it, the objects declared with the lower type are
left out of the upper one, and only those of the types further below are taken.

A list of objects is closed in the order: those declared with the type itself, then those of
each type right under it, each object where it is first met. A hierarchy that runs in a circle
has no catalog.
-/

namespace StripsReach

/-- Leaves the objects declared with `subtype` out of `type`. -/
structure FlattenedSubtype where
  type : Name
  subtype : Name
  deriving DecidableEq, Repr

/-- Types in the order of their hierarchy, each with its objects. -/
structure Catalog where
  entries : List (Name × List Name)
  deriving DecidableEq, Repr

namespace Catalog

/-- The objects of `type`, if it is a known type. -/
def objects? (c : Catalog) (type : Name) : Option (List Name) := c.entries.lookup type

/-- All objects, which are those of the universal type. -/
def all (c : Catalog) : List Name := (c.objects? objectType).getD []

def declared (declarations : TypedList) (type : Name) : List Name :=
  (declarations.filter fun entry => entry.type = type).map Typed.value

/-- The types whose objects `type` takes over: those right under it, and in place of a flattened
one those right under that. -/
def branches (h : TypeHierarchy) (flattened : List FlattenedSubtype) (type : Name) : List Name :=
  (h.subtypes type).flatMap fun subtype =>
    if flattened.contains ⟨type, subtype⟩ then h.subtypes subtype else [subtype]

theorem exists_children_of_mem_branches {h : TypeHierarchy} {flattened : List FlattenedSubtype}
    {type branch : Name} (hb : branch ∈ branches h flattened type) :
    ∃ entry ∈ h.children, entry.1 = type := by
  obtain ⟨subtype, hs, -⟩ := List.mem_flatMap.1 hb
  rw [TypeHierarchy.subtypes] at hs
  cases hlookup : h.children.lookup type with
  | none => simp [hlookup] at hs
  | some below => exact ⟨(type, below), mem_of_lookup_eq_some hlookup, rfl⟩

def put (c : Catalog) (type : Name) (objects : List Name) : Catalog :=
  ⟨(type, objects) :: c.entries⟩

theorem objects?_put (c : Catalog) (type other : Name) (objects : List Name) :
    (c.put type objects).objects? other =
      if other = type then some objects else c.objects? other := by
  by_cases h : other = type
  · simp [put, objects?, h]
  · have hb : (other == type) = false := by simpa using h
    simp [put, objects?, List.lookup_cons, h, hb]

/-- The objects of `type` by the order above, where `done` has those of the types that it takes
over from. -/
def gather (h : TypeHierarchy) (declarations : TypedList) (flattened : List FlattenedSubtype)
    (done : Catalog) (type : Name) : List Name :=
  (declared declarations type ++
    (branches h flattened type).flatMap fun branch => (done.objects? branch).getD []).eraseDups

/-- The catalog `done` with the objects of `type`, which is reached down the types in `path`, and
of all types that it takes over from. A type that is done is not closed again. It fails where the
way down comes back to a type in `path`. -/
def closeType (h : TypeHierarchy) (declarations : TypedList) (flattened : List FlattenedSubtype)
    (path : List Name) (done : Catalog) (type : Name) : Except Fault Catalog :=
  if (done.objects? type).isSome then .ok done
  else if _hnew : type ∈ path then .error (.cyclicTypes type)
  else do
    let done ← (branches h flattened type).attach.foldlM (fun done branch =>
      closeType h declarations flattened (type :: path) done branch.1) done
    .ok (done.put type (gather h declarations flattened done type))
termination_by h.children.countP fun entry => entry.1 ∉ path
decreasing_by
  obtain ⟨entry, hentry, ht⟩ := exists_children_of_mem_branches branch.2
  refine countP_lt_countP ?_ hentry ?_ ?_
  · intro x _ hx
    simp only [List.mem_cons, not_or, decide_eq_true_eq] at hx ⊢
    exact hx.2
  · simp [ht]
  · simp [ht, _hnew]

/-- The hierarchy with the types that declarations name, and every type without a supertype
placed under the universal type. -/
def extended (h : TypeHierarchy) (declarations : TypedList) : TypeHierarchy :=
  (declarations.foldl (fun h entry => h.declare entry.type) h).attachOrphans

/-- The catalog of the declared objects. It fails if a type is its own indirect supertype. -/
def close (h : TypeHierarchy) (declarations : TypedList) (flattened : List FlattenedSubtype) :
    Except Fault Catalog := do
  let full := extended h declarations
  let done ← full.types.foldlM (closeType full declarations flattened []) ⟨[]⟩
  .ok ⟨full.types.map fun type => (type, (done.objects? type).getD [])⟩

end Catalog

end StripsReach
