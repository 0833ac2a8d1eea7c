import StripsReach.Schema.Action

/-!
# Ground actions

An action schema with an object for every parameter. Of two ground actions with the same name
and the same arguments no more is asked: they count as one action.
-/

namespace StripsReach

/-- An action over objects. The cost counts in the delete relaxation only. -/
structure GroundAction where
  name : Name
  arguments : List Name
  precondition : Conjunction
  effect : Conjunction
  cost : Nat := 1
  deriving DecidableEq, Repr

namespace GroundAction

def needs (a : GroundAction) : List Atom := a.precondition.positive

def adds (a : GroundAction) : List Atom := a.effect.positive

def deletes (a : GroundAction) : List Atom := a.effect.negative

/-- The schema with `objects` for its parameters, replaced everywhere at once. -/
def instantiate (schema : ActionSchema) (objects : List Name) : GroundAction where
  name := schema.name
  arguments := objects
  precondition := schema.precondition.substitute (schema.parameters.values.zip objects)
  effect := schema.effect.substitute (schema.parameters.values.zip objects)

def sameAs (a b : GroundAction) : Bool := a.name = b.name && a.arguments = b.arguments

def text (a : GroundAction) : String := Atom.listing a.name a.arguments

def row (atoms : List Atom) : String := " ".intercalate (atoms.map Atom.text)

/-- The action on five lines: its name, its arguments, and the atoms it needs, adds and deletes.
-/
def describe (a : GroundAction) : String :=
  "action: " ++ a.name ++
  "\n  parameters: " ++ ", ".intercalate a.arguments ++
  "\n  positive_preconditions: " ++ row a.needs ++
  "\n  add_effects: " ++ row a.adds ++
  "\n  del_effects: " ++ row a.deletes ++ "\n"

end GroundAction

/-- A ground action with its place in the list of all. -/
structure NumberedAction where
  id : Nat
  action : GroundAction
  deriving DecidableEq, Repr

namespace NumberedAction

/-- The actions numbered from zero. -/
def ofList (actions : List GroundAction) : List NumberedAction :=
  actions.zipIdx.map fun (action, id) => ⟨id, action⟩

/-- A number is in range iff some action has it, and it has only one. -/
theorem mem_ofList {actions : List GroundAction} {a : NumberedAction} :
    a ∈ ofList actions ↔ actions[a.id]? = some a.action := by
  constructor
  · intro h
    obtain ⟨⟨action, id⟩, hmem, rfl⟩ := List.mem_map.1 h
    exact List.mem_zipIdx_iff_getElem?.1 hmem
  · intro h
    exact List.mem_map.2 ⟨(a.action, a.id), List.mem_zipIdx_iff_getElem?.2 h, rfl⟩

/-- Which actions there are does not depend on their numbers. -/
theorem exists_mem_ofList {actions : List GroundAction} {p : GroundAction → Prop} :
    (∃ a ∈ ofList actions, p a.action) ↔ ∃ a ∈ actions, p a := by
  constructor
  · rintro ⟨a, ha, hp⟩
    exact ⟨a.action, List.mem_of_getElem? (mem_ofList.1 ha), hp⟩
  · rintro ⟨a, ha, hp⟩
    obtain ⟨id, hid⟩ := List.mem_iff_getElem?.1 ha
    exact ⟨⟨id, a⟩, mem_ofList.2 hid, hp⟩

theorem pairwise_id_lt_ofList (actions : List GroundAction) :
    (ofList actions).Pairwise fun a b => a.id < b.id := by
  have hids : (ofList actions).map NumberedAction.id = List.range' 0 actions.length := by
    rw [ofList, List.map_map]
    exact List.zipIdx_map_snd 0 actions
  rw [← List.pairwise_map, hids]
  exact List.pairwise_lt_range'

theorem eq_of_id_eq {actions : List GroundAction} {a b : NumberedAction}
    (ha : a ∈ ofList actions) (hb : b ∈ ofList actions)
    (h : a.id = b.id) : a = b := by
  rw [mem_ofList] at ha hb
  obtain ⟨i, action⟩ := a
  obtain rfl : i = b.id := h
  rw [hb] at ha
  obtain rfl := Option.some.inj ha
  rfl

end NumberedAction

end StripsReach
