import StripsReach.SExpr
import StripsReach.Fault
import StripsReach.Descent

/-!
# Type hierarchies

The types of a domain, each placed under at most one other type. A type keeps the first
supertype it is assigned to, and the universal type has none. Chains of supertypes may run in
circles: only closing a catalog over the hierarchy refuses that.
-/

namespace StripsReach

/-- The known types in the order of their declaration, for each of them the types right under it in
the order in which they were placed, and for each placed type its supertype. -/
structure TypeHierarchy where
  types : List Name
  children : List (Name × List Name)
  parents : List (Name × Name)
  deriving DecidableEq, Repr

namespace TypeHierarchy

def root : TypeHierarchy := ⟨[objectType], [(objectType, [])], []⟩

instance : Inhabited TypeHierarchy := ⟨root⟩

/-- Every known type has a list of subtypes. -/
def contains (h : TypeHierarchy) (name : Name) : Bool := (h.children.lookup name).isSome

/-- The supertype of `name`, if it has been given one. -/
def parent (h : TypeHierarchy) (name : Name) : Option Name := h.parents.lookup name

/-- The types placed right under `name`, none for an unknown name. -/
def subtypes (h : TypeHierarchy) (name : Name) : List Name := (h.children.lookup name).getD []

def isLeaf (h : TypeHierarchy) (name : Name) : Bool := (h.subtypes name).isEmpty

def size (h : TypeHierarchy) : Nat := h.types.length - 1

/-- Makes `name` a known type that is placed under no other. -/
def declare (h : TypeHierarchy) (name : Name) : TypeHierarchy :=
  if h.contains name then h
  else { h with types := h.types ++ [name], children := h.children ++ [(name, [])] }

/-- Whether `name` can be given a supertype. -/
def isOpen (h : TypeHierarchy) (name : Name) : Bool :=
  name ≠ objectType && (h.parent name).isNone

/-- Writes `supertype` down as the supertype of `subtype`, and `subtype` as the last of the types
right under `supertype`. -/
def record (h : TypeHierarchy) (subtype supertype : Name) : TypeHierarchy :=
  { h with
    parents := (subtype, supertype) :: h.parents
    children := h.children.map fun entry =>
      (entry.1, if entry.1 = supertype then entry.2 ++ [subtype] else entry.2) }

/-- Makes both types known and places `subtype` under `supertype`, unless it has a supertype
already. The answer is whether it was placed. -/
def assign (h : TypeHierarchy) (subtype supertype : Name) : Bool × TypeHierarchy :=
  let known := (h.declare subtype).declare supertype
  if known.isOpen subtype then (true, known.record subtype supertype) else (false, known)

/-- The hierarchy after an assignment that is not asked for its answer. -/
def place (h : TypeHierarchy) (subtype supertype : Name) : TypeHierarchy :=
  (h.assign subtype supertype).2

/-- Places every type without a supertype under the universal type. -/
def attachOrphans (h : TypeHierarchy) : TypeHierarchy :=
  (h.types.filter h.isOpen).foldl (·.place · objectType) h

/-- The types reached from `current` by supertype links, after those in `found`. The walk stops
where a link leads back to `start` or to a type found before. -/
def ancestorsFrom (h : TypeHierarchy) (start : Name) (found : List Name) (current : Name) :
    List Name :=
  match _hp : h.parent current with
  | none => found
  | some supertype =>
    if supertype = start ∨ supertype ∈ found then found
    else ancestorsFrom h start (found ++ [supertype]) supertype
termination_by h.parents.countP fun link => link.2 ∉ found
decreasing_by
  rename_i hnew
  refine countP_lt_countP ?_ (mem_of_lookup_eq_some _hp) ?_ ?_
  · intro link _ hlink
    simp only [List.mem_append, not_or, decide_eq_true_eq] at hlink ⊢
    exact hlink.1
  · simp
  · simp only [decide_eq_true_eq]
    exact fun hmem => hnew (Or.inr hmem)

/-- The supertypes of `name`, nearest first. -/
def ancestors (h : TypeHierarchy) (name : Name) : List Name := h.ancestorsFrom name [] name

/-- The hierarchy that `items` declare on top of `h` after the names in `pending`, which still
wait for their supertype. -/
def ofItemsAfter (h : TypeHierarchy) (pending : List Name) :
    List SExpr → Except Fault TypeHierarchy
  | [] => .ok h
  | .list _ :: _ => .error (.expectedName "types")
  | .word name :: rest =>
    if name = "-" then
      if pending.isEmpty then .error (.unexpectedHyphen "types")
      else
        match rest with
        | .word supertype :: rest =>
          ofItemsAfter (pending.foldl (·.place · supertype) h) [] rest
        | _ => .error (.missingType "types")
    else ofItemsAfter (h.declare name) (pending ++ [name]) rest

/-- The hierarchy that `items` declare: runs of names, each with a hyphen and the supertype of
all of them. A name that is given no supertype is placed under the universal type. -/
def ofItems (items : List SExpr) : Except Fault TypeHierarchy :=
  attachOrphans <$> ofItemsAfter root [] items

end TypeHierarchy

end StripsReach
