import StripsReach.Proofs.Catalog.Membership
import StripsReach.Proofs.Domain.Names
import StripsReach.Proofs.Grounding.Assignments

/-!
# The ground actions of a domain

Grounding fails exactly if a schema has a parameter of unknown type. Otherwise the schemas follow
each other, and each is instantiated with all assignments that the rules let pass, in the order of
the catalog. Names of actions are distinct in a domain that has been read, and no type of a closed
catalog has an object twice, so a number in the list stands for one schema with one assignment.
-/

namespace StripsReach

/-- No rule rejects the assignment. -/
def Passes (rules : List PruningRule) (action : Name) (objects : List Name) : Prop :=
  ∀ rule ∈ rules, ¬ rule.rejects action objects

instance (rules : List PruningRule) (action : Name) : DecidablePred (Passes rules action) :=
  fun objects => inferInstanceAs (Decidable (∀ rule ∈ rules, ¬ rule.rejects action objects))

/-- The names of the action schemas with their parameters. -/
def Domain.actionSignatures (d : Domain) : List (Name × TypedList) :=
  d.actions.map fun schema => (schema.name, schema.parameters)

/-- The list holds the ground actions of a domain. -/
structure Grounded (d : Domain) (c : Catalog) (rules : List PruningRule)
    (actions : List GroundAction) : Prop where
  in_order : ∃ assignments : ActionSchema → List (List Name),
    (∀ schema ∈ d.actions,
      Enumerates c schema.parameters (Passes rules schema.name) (assignments schema)) ∧
    actions = d.actions.flatMap fun schema =>
      (assignments schema).map (GroundAction.instantiate schema)
  distinct : actions.Pairwise fun a b => ¬ a.sameAs b
  existsUnique_source : ∀ (id : Nat) a, actions[id]? = some a →
    ∃! source : ActionSchema × List Name, source.1 ∈ d.actions ∧
      Fits c source.1.parameters source.2 ∧ a = GroundAction.instantiate source.1 source.2
  existsUnique_id : ∀ schema ∈ d.actions, ∀ objects, Fits c schema.parameters objects →
    Passes rules schema.name objects →
    ∃! id : Nat, actions[id]? = some (GroundAction.instantiate schema objects)

namespace Domain

variable {d : Domain} {c : Catalog} {rules : List PruningRule} {schema other : ActionSchema}
  {objects objects' : List Name} {assignments : ActionSchema → List (List Name)}

theorem keeps_eq_decide (rules : List PruningRule) (action : Name) :
    PruningRule.keeps rules action = fun objects => decide (Passes rules action objects) := by
  funext objects
  simp [PruningRule.keeps, Passes, List.all_eq]

theorem passes_nil (rules : List PruningRule) (action : Name) : Passes rules action [] := by
  intro rule _
  simp [PruningRule.rejects]

/-- The assignments of a schema that the rules let pass. -/
def keptAssignments (c : Catalog) (rules : List PruningRule) (schema : ActionSchema) :
    List (List Name) :=
  (choices (schema.parameters.map c.options)).filter (Passes rules schema.name)

theorem ground_eq (schema : ActionSchema) : schema.ground c rules =
    (schema.parameters.findSome? (undeclared? c .action schema.name)).elim
      (.ok ((keptAssignments c rules schema).map (GroundAction.instantiate schema))) .error := by
  rw [ActionSchema.ground, ActionSchema.candidates, candidates_eq, keptAssignments,
    keeps_eq_decide]
  cases schema.parameters.findSome? (undeclared? c .action schema.name) <;> rfl

theorem groundActions_eq (d : Domain) (c : Catalog) (rules : List PruningRule) :
    d.groundActions c rules = (c.firstUnknown? d.actionSignatures).elim
      (.ok (d.actions.flatMap fun schema =>
        (keptAssignments c rules schema).map (GroundAction.instantiate schema)))
      fun owned => .error (.undeclaredType owned.2.value .action owned.1 owned.2.type) := by
  rw [groundActions, mapM_eq_findSome? ground_eq, findSome?_findSome?_undeclared?,
    ← actionSignatures]
  cases c.firstUnknown? d.actionSignatures <;> rfl

/-! ### Which action comes from where -/

theorem eq_of_instantiate_eq (hd : d.DistinctNames) (hschema : schema ∈ d.actions)
    (hother : other ∈ d.actions)
    (heq : GroundAction.instantiate schema objects = .instantiate other objects') :
    schema = other ∧ objects = objects' :=
  ⟨List.inj_on_of_nodup_map hd.actions hschema hother (congrArg GroundAction.name heq),
    congrArg GroundAction.arguments heq⟩

theorem sameAs_iff {a b : GroundAction} :
    a.sameAs b ↔ a.name = b.name ∧ a.arguments = b.arguments := by
  simp [GroundAction.sameAs]

theorem pairwise_not_sameAs (hd : d.DistinctNames)
    (hnodup : ∀ schema ∈ d.actions, (assignments schema).Nodup) :
    (d.actions.flatMap fun schema =>
      (assignments schema).map (GroundAction.instantiate schema)).Pairwise
        fun a b => ¬ a.sameAs b := by
  rw [List.pairwise_flatMap]
  constructor
  · intro schema hschema
    rw [List.pairwise_map]
    refine (hnodup schema hschema).imp fun hne hsame => ?_
    exact hne (sameAs_iff.mp hsame).2
  · refine (List.pairwise_map.mp hd.actions).imp fun hne a ha b hb hsame => ?_
    obtain ⟨_, -, rfl⟩ := List.mem_map.mp ha
    obtain ⟨_, -, rfl⟩ := List.mem_map.mp hb
    exact hne (sameAs_iff.mp hsame).1

/-- A list in which no two actions are the same has every action under one number at most. -/
theorem existsUnique_getElem? {actions : List GroundAction} {a : GroundAction}
    (hdistinct : actions.Pairwise fun a b => ¬ a.sameAs b) (ha : a ∈ actions) :
    ∃! id : Nat, actions[id]? = some a := by
  have hnodup : actions.Nodup :=
    hdistinct.imp fun {a b} hne (heq : a = b) => hne (sameAs_iff.mpr (heq ▸ ⟨rfl, rfl⟩))
  obtain ⟨id, hid⟩ := List.mem_iff_getElem?.mp ha
  have hlt : id < actions.length := (List.getElem?_eq_some_iff.mp hid).1
  refine ⟨id, hid, fun other hother => ?_⟩
  exact ((List.getElem?_inj hlt hnodup).mp (hid.trans hother.symm)).symm

theorem grounded_of_enumerates (hd : d.DistinctNames)
    (henumerates : ∀ schema ∈ d.actions,
      Enumerates c schema.parameters (Passes rules schema.name) (assignments schema)) :
    Grounded d c rules (d.actions.flatMap fun schema =>
      (assignments schema).map (GroundAction.instantiate schema)) := by
  have hdistinct := pairwise_not_sameAs hd fun schema hschema => (henumerates schema hschema).nodup
  refine ⟨⟨assignments, henumerates, rfl⟩, hdistinct, ?_, ?_⟩
  · intro id a hid
    obtain ⟨schema, hschema, ha⟩ := List.mem_flatMap.mp (List.mem_of_getElem? hid)
    obtain ⟨objects, hobjects, rfl⟩ := List.mem_map.mp ha
    have hfits := (((henumerates schema hschema).mem_iff objects).mp hobjects).1
    refine ⟨(schema, objects), ⟨hschema, hfits, rfl⟩, ?_⟩
    rintro ⟨other, objects'⟩ ⟨hother, -, heq⟩
    obtain ⟨rfl, rfl⟩ := eq_of_instantiate_eq hd hschema hother heq
    rfl
  · intro schema hschema objects hfits hpasses
    have hobjects := ((henumerates schema hschema).mem_iff objects).mpr ⟨hfits, hpasses⟩
    refine existsUnique_getElem? hdistinct (List.mem_flatMap.mpr ⟨schema, hschema, ?_⟩)
    exact List.mem_map_of_mem hobjects

/-- Grounding fails exactly if some parameter has a type that the catalog does not know, and then
names the first. Otherwise it enumerates the kept assignments of every schema, and every action
under one number. -/
theorem groundActions_enumerates {e : SExpr} {h : TypeHierarchy} {declarations : TypedList}
    {flattened : List FlattenedSubtype} (hread : ofSExpr e = .ok d)
    (hclose : Catalog.close h declarations flattened = .ok c) (rules : List PruningRule) :
    ((∃ fault, d.groundActions c rules = .error fault) ↔
        ∃ schema ∈ d.actions, ∃ parameter ∈ schema.parameters,
          c.objects? parameter.type = none) ∧
      (∀ owner parameter, c.firstUnknown? d.actionSignatures = some (owner, parameter) →
        d.groundActions c rules =
          .error (.undeclaredType parameter.value .action owner parameter.type)) ∧
      (c.firstUnknown? d.actionSignatures = none →
        ∃ actions, d.groundActions c rules = .ok actions ∧ Grounded d c rules actions) := by
  have hnone : c.firstUnknown? d.actionSignatures = none ↔ ¬ ∃ schema ∈ d.actions,
      ∃ parameter ∈ schema.parameters, c.objects? parameter.type = none := by
    simp [firstUnknown?_eq_none_iff, actionSignatures]
  rw [groundActions_eq]
  refine ⟨?_, fun owner parameter hfirst => by rw [hfirst]; rfl, fun hfirst => ?_⟩
  · rw [← not_iff_not, ← hnone]
    cases c.firstUnknown? d.actionSignatures <;> simp
  · rw [hfirst]
    refine ⟨_, rfl, grounded_of_enumerates (distinctNames_of_ofSExpr hread) fun schema _ => ?_⟩
    exact enumerates_choices (fun _ _ => Catalog.nodup_of_close hclose) (passes_nil rules _)

def drive : ActionSchema where
  name := "drive"
  parameters := [⟨"?t", "truck"⟩, ⟨"?a", "object"⟩, ⟨"?b", "object"⟩]

/-- One action with three parameters and one with none. -/
def delivery : SExpr :=
  .list [.word "define",
    .list [.word ":action", .word "ring"],
    .list [.word ":action", .word "drive", .word ":parameters",
      .list [.word "?t", .word "-", .word "truck", .word "?a", .word "?b"]]]

def depot : Catalog := ⟨[("object", ["p", "t"]), ("truck", ["t"])]⟩

theorem groundActions_enumerates_delivery :
    ofSExpr delivery = .ok { actions := [{ name := "ring" }, drive] } ∧
      Catalog.close .root [⟨"t", "truck"⟩, ⟨"p", "object"⟩] [] = .ok depot ∧
      ∃ actions, groundActions { actions := [{ name := "ring" }, drive] } depot
          PruningRule.standard = .ok actions ∧
        Grounded { actions := [{ name := "ring" }, drive] } depot PruningRule.standard actions := by
  have hread : ofSExpr delivery = .ok { actions := [{ name := "ring" }, drive] } := by
    decide +kernel
  have hclose : Catalog.close .root [⟨"t", "truck"⟩, ⟨"p", "object"⟩] [] = .ok depot := by
    decide +kernel
  obtain ⟨-, -, hgrounded⟩ := groundActions_enumerates hread hclose PruningRule.standard
  exact ⟨hread, hclose, hgrounded (by decide +kernel)⟩

/-- Driving from a place to itself is left out. -/
example : (groundActions { actions := [{ name := "ring" }, drive] } depot
    PruningRule.standard).map (·.map GroundAction.arguments) =
      .ok [[], ["t", "p", "t"], ["t", "t", "p"]] := by
  decide +kernel

end Domain

end StripsReach
