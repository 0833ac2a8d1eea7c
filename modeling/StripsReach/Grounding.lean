import StripsReach.Problem
import StripsReach.Pruning
import StripsReach.GroundAction

/-!
# Grounding

The ground actions of a schema are its instances for every choice of objects of the parameters'
types, but for those that a pruning rule rejects. Choices are taken in the order of the catalog
with the last parameter varying fastest. Predicates are grounded in the same way.
-/

namespace StripsReach

/-- All ways to take one member of each list, the last one varying fastest. Where a list has no
member, those after it are not looked at. -/
def choices {α : Type} : List (List α) → List (List α)
  | [] => [[]]
  | [] :: _ => []
  | options :: rest =>
    let tails := choices rest
    options.flatMap fun a => tails.map (a :: ·)

/-- A choice from one list more is a member of it before a choice from the others. -/
theorem choices_cons {α : Type} (options : List α) (rest : List (List α)) :
    choices (options :: rest) = options.flatMap fun a => (choices rest).map (a :: ·) := by
  cases options <;> rfl

/-- The first `limit` choices that extend `taken` (last choice first) and pass `keep`. No more of
them are looked at than it takes. -/
def firstChoicesAfter {α : Type} (keep : List α → Bool) (taken : List α) :
    (limit : Nat) → List (List α) → List (List α)
  | limit, [] => if limit ≠ 0 ∧ keep taken.reverse then [taken.reverse] else []
  | limit, options :: rest =>
    options.foldl (fun found a =>
      if found.length < limit then
        found ++ firstChoicesAfter keep (a :: taken) (limit - found.length) rest
      else found) []

def firstChoices {α : Type} (keep : List α → Bool) (limit : Nat) (lists : List (List α)) :
    List (List α) :=
  if lists.any List.isEmpty then [] else firstChoicesAfter keep [] limit lists

/-- The largest count that a machine word of 64 bits holds, plus one. -/
def wordSize : Nat := 18446744073709551616

/-- How many choices there are, counted list by list. There is no count once it has left the
machine word. -/
def countChoices? {α : Type} (lists : List (List α)) : Option Nat :=
  lists.foldlM (fun count options =>
    if count * options.length < wordSize then some (count * options.length) else none) 1

/-- The objects that each parameter may be given. `definition` and `owner` tell whose parameters
they are. -/
def candidates (catalog : Catalog) (definition : Definition) (owner : Name)
    (parameters : TypedList) : Except Fault (List (List Name)) :=
  parameters.mapM fun parameter =>
    match catalog.objects? parameter.type with
    | some objects => .ok objects
    | none => .error (.undeclaredType parameter.value definition owner parameter.type)

namespace ActionSchema

def candidates (schema : ActionSchema) (catalog : Catalog) : Except Fault (List (List Name)) :=
  StripsReach.candidates catalog .action schema.name schema.parameters

def assignmentCount (schema : ActionSchema) (catalog : Catalog) : Except Fault Nat := do
  let lists ← schema.candidates catalog
  match countChoices? lists with
  | some count => .ok count
  | none => .error (.uncountable schema.name)

def ground (schema : ActionSchema) (catalog : Catalog) (rules : List PruningRule) :
    Except Fault (List GroundAction) := do
  let lists ← schema.candidates catalog
  .ok (((choices lists).filter (PruningRule.keeps rules schema.name)).map
    (GroundAction.instantiate schema))

/-- What is reported about the grounding of the schema to those who ask for all levels down to
`least`. The assignments are counted only where their number is told. -/
def groundingEvents (schema : ActionSchema) (least : Level) (catalog : Catalog)
    (rules : List PruningRule) : Except Fault (List Event) :=
  if Level.debug.isWithin least then do
    let actions ← schema.ground catalog rules
    let count ← schema.assignmentCount catalog
    .ok (PruningRule.warnings rules schema ++
      [⟨.debug, "grounded action schema",
        [("action", .text schema.name), ("candidates", .number count),
          ("grounded", .number actions.length)]⟩])
  else
    .ok (PruningRule.warnings rules schema)

def groundFirst (schema : ActionSchema) (catalog : Catalog) (rules : List PruningRule)
    (limit : Nat) : Except Fault (List GroundAction) := do
  let lists ← schema.candidates catalog
  .ok ((firstChoices (PruningRule.keeps rules schema.name) limit lists).map
    (GroundAction.instantiate schema))

end ActionSchema

def PredicateSchema.ground (schema : PredicateSchema) (catalog : Catalog) :
    Except Fault (List Atom) := do
  let lists ← candidates catalog .predicate schema.name schema.parameters
  .ok ((choices lists).map (Atom.mk schema.name))

namespace Domain

/-- The ground actions of all schemas, in the order of the schemas. -/
def groundActions (d : Domain) (catalog : Catalog) (rules : List PruningRule) :
    Except Fault (List GroundAction) :=
  List.flatten <$> d.actions.mapM fun schema => schema.ground catalog rules

def groundingEvents (d : Domain) (least : Level) (catalog : Catalog)
    (rules : List PruningRule) : Except Fault (List Event) :=
  List.flatten <$> d.actions.mapM fun schema => schema.groundingEvents least catalog rules

/-- The atoms that the predicates form over the objects, in the order of the predicates. -/
def groundAtoms (d : Domain) (catalog : Catalog) : Except Fault (List Atom) :=
  List.flatten <$> d.predicates.mapM fun schema => schema.ground catalog

end Domain

end StripsReach
