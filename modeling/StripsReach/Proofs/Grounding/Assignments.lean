import StripsReach.Proofs.Grounding.Choices
import StripsReach.Proofs.Refusal

/-!
# Objects for parameters

An assignment gives every parameter an object of the parameter's type. A schema, be it of an action
or of a predicate, has a type that the catalog does not know, and then the first such parameter is
reported, or its assignments are enumerated in the order in which the catalog lists the objects.
-/

namespace StripsReach

/-- Every parameter is given an object of its type. -/
def Fits (c : Catalog) (parameters : TypedList) (objects : List Name) : Prop :=
  List.Forall₂ (fun parameter o => ∃ options, c.objects? parameter.type = some options ∧ o ∈ options)
    parameters objects

/-- The objects that the parameter may be given, none if its type is unknown. -/
def Catalog.options (c : Catalog) (parameter : Typed) : List Name :=
  (c.objects? parameter.type).getD []

/-- The first parameter of unknown type in the order of the definitions and of their parameters,
with the name of its definition. -/
def Catalog.firstUnknown? (c : Catalog) (definitions : List (Name × TypedList)) :
    Option (Name × Typed) :=
  (definitions.flatMap fun definition => definition.2.map (definition.1, ·)).find?
    fun owned => (c.objects? owned.2.type).isNone

/-- The tuples are all assignments that pass `keep`, each once, in the order of the catalog with the
last parameter varying fastest. -/
structure Enumerates (c : Catalog) (parameters : TypedList) (keep : List Name → Prop)
    (tuples : List (List Name)) : Prop where
  mem_iff : ∀ objects, objects ∈ tuples ↔ Fits c parameters objects ∧ keep objects
  ordered : tuples.Pairwise fun a b =>
    places (parameters.map c.options) a < places (parameters.map c.options) b
  without_parameters : parameters = [] → tuples = [[]]
  without_objects : ∀ parameter ∈ parameters, c.objects? parameter.type = some [] → tuples = []

variable {c : Catalog} {definition : Definition} {owner : Name} {parameters : TypedList}
  {objects : List Name} {keep : List Name → Prop} {tuples : List (List Name)}

theorem mem_options {parameter : Typed} {o : Name} : o ∈ c.options parameter ↔
    ∃ options, c.objects? parameter.type = some options ∧ o ∈ options := by
  rw [Catalog.options]
  cases c.objects? parameter.type <;> simp

theorem mem_choices_options :
    objects ∈ choices (parameters.map c.options) ↔ Fits c parameters objects := by
  simp only [mem_choices, List.forall₂_map_left_iff, mem_options, Fits]

theorem Fits.length (hfits : Fits c parameters objects) :
    parameters.values.length = objects.length := by
  rw [TypedList.values, List.length_map, hfits.length_eq]

theorem Fits.exists_type (hfits : Fits c parameters objects) {o : Name} (ho : o ∈ objects) :
    ∃ type options, c.objects? type = some options ∧ o ∈ options := by
  induction hfits with
  | nil => cases ho
  | @cons parameter object _ _ hfirst _ ih =>
    obtain ⟨options, hoptions, hobject⟩ := hfirst
    rcases List.mem_cons.mp ho with rfl | hrest
    · exact ⟨parameter.type, options, hoptions, hobject⟩
    · exact ih hrest

theorem nodup_options
    (hnodup : ∀ type objects, c.objects? type = some objects → objects.Nodup)
    (parameter : Typed) : (c.options parameter).Nodup := by
  rw [Catalog.options]
  cases hobjects : c.objects? parameter.type with
  | none => exact List.nodup_nil
  | some objects => exact hnodup _ _ hobjects

theorem enumerates_choices [DecidablePred keep]
    (hnodup : ∀ type objects, c.objects? type = some objects → objects.Nodup) (hkeep : keep []) :
    Enumerates c parameters keep ((choices (parameters.map c.options)).filter keep) where
  mem_iff objects := by
    rw [List.mem_filter, mem_choices_options, decide_eq_true_iff]
  ordered := by
    refine (pairwise_places_choices ?_).filter _
    exact List.forall_mem_map.mpr fun parameter _ => nodup_options hnodup parameter
  without_parameters hnil := by
    subst hnil
    simp [choices, hkeep]
  without_objects parameter hmem hempty := by
    have hnil : [] ∈ parameters.map c.options :=
      List.mem_map.mpr ⟨parameter, hmem, by rw [Catalog.options, hempty, Option.getD_some]⟩
    rw [choices_eq_nil hnil, List.filter_nil]

/-- All choices, where there is nothing to be left out. -/
theorem enumerates_all
    (hnodup : ∀ type objects, c.objects? type = some objects → objects.Nodup) :
    Enumerates c parameters (fun _ => True) (choices (parameters.map c.options)) := by
  have hfilter : Enumerates c parameters (fun _ => True)
      ((choices (parameters.map c.options)).filter fun _ => True) :=
    enumerates_choices hnodup trivial
  rwa [List.filter_eq_self.mpr fun _ _ => decide_eq_true trivial] at hfilter

theorem Enumerates.nodup (htuples : Enumerates c parameters keep tuples) : tuples.Nodup :=
  htuples.ordered.imp fun hlt heq => absurd (heq ▸ hlt) (List.lt_irrefl _)

/-! ### Parameters of unknown type -/

/-- The fault about a parameter of unknown type. -/
def undeclared? (c : Catalog) (definition : Definition) (owner : Name) (parameter : Typed) :
    Option Fault :=
  if (c.objects? parameter.type).isNone then
    some (.undeclaredType parameter.value definition owner parameter.type)
  else none

theorem candidates_eq : candidates c definition owner parameters =
    (parameters.findSome? (undeclared? c definition owner)).elim (.ok (parameters.map c.options))
      .error := by
  refine mapM_eq_findSome? (fun parameter => ?_) parameters
  rw [undeclared?, Catalog.options]
  cases c.objects? parameter.type <;> rfl

theorem findSome?_undeclared? : parameters.findSome? (undeclared? c definition owner) =
    (parameters.find? fun parameter => (c.objects? parameter.type).isNone).map fun parameter =>
      .undeclaredType parameter.value definition owner parameter.type := by
  induction parameters with
  | nil => rfl
  | cons parameter parameters ih =>
    rw [List.findSome?_cons, List.find?_cons, undeclared?, ih]
    cases (c.objects? parameter.type).isNone <;> rfl

/-- Whatever is defined, the first fault is about the first parameter of unknown type. -/
theorem findSome?_findSome?_undeclared? {α : Type} (name : α → Name) (signature : α → TypedList)
    (l : List α) :
    l.findSome? (fun a => (signature a).findSome? (undeclared? c definition (name a))) =
      (c.firstUnknown? (l.map fun a => (name a, signature a))).map fun owned =>
        .undeclaredType owned.2.value definition owned.1 owned.2.type := by
  rw [Catalog.firstUnknown?, List.find?_flatMap, List.findSome?_map, List.map_findSome?]
  refine congrArg (List.findSome? · l) (funext fun a => ?_)
  rw [findSome?_undeclared?, Function.comp_apply, Function.comp_apply, List.find?_map,
    Option.map_map]
  rfl

theorem firstUnknown?_eq_none_iff {definitions : List (Name × TypedList)} :
    c.firstUnknown? definitions = none ↔
      ∀ d ∈ definitions, ∀ parameter ∈ d.2, c.objects? parameter.type ≠ none := by
  simp [Catalog.firstUnknown?]

end StripsReach
