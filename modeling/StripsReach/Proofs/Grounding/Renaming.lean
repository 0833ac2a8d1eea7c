import StripsReach.Proofs.Task.Arguments

/-!
# What parameters are called

The ground actions of a schema do not show what it calls its parameters. All arguments of a literal
are replaced at once, each by the object that stands where the first parameter of its name does, so
the parameters can be given any names that keep them apart and are none of those that the literals
use for something else. An object may well be called like a parameter: it is put in and not looked
at again.
-/

namespace StripsReach

/-- The atom with every argument replaced, each by itself. -/
def Atom.mapArguments (g : Name → Name) (a : Atom) : Atom :=
  { a with arguments := a.arguments.map g }

def Conjunction.mapArguments (g : Name → Name) (c : Conjunction) : Conjunction where
  positive := c.positive.map (·.mapArguments g)
  negative := c.negative.map (·.mapArguments g)

namespace ActionSchema

/-- What an argument of a literal is called once the parameters are called by `f`. -/
def newName (schema : ActionSchema) (f : Name → Name) (x : Name) : Name :=
  if x ∈ schema.parameters.values then f x else x

/-- The schema with its parameters called by `f`, in the list of parameters and in all literals. -/
def renamed (schema : ActionSchema) (f : Name → Name) : ActionSchema where
  name := schema.name
  parameters := schema.parameters.map fun parameter => ⟨f parameter.value, parameter.type⟩
  precondition := schema.precondition.mapArguments (schema.newName f)
  effect := schema.effect.mapArguments (schema.newName f)

/-- Parameters of different names keep different names, and none gets a name that an argument of a
literal has which is no parameter. -/
structure CanRename (schema : ActionSchema) (f : Name → Name) : Prop where
  apart : ∀ x ∈ schema.parameters.values, ∀ y ∈ schema.parameters.values, f x = f y → x = y
  fresh : ∀ x ∈ schema.parameters.values, ∀ y ∈ Atom.argumentsOf schema.literals,
    y ∉ schema.parameters.values → f x ≠ y

/-- The object in the place of the first parameter called `x`, or `x` itself if there is none. -/
def replacement (schema : ActionSchema) (objects : List Name) (x : Name) : Name :=
  objects[schema.parameters.values.idxOf x]?.getD x

end ActionSchema

variable {c : Catalog} {rules : List PruningRule} {schema : ActionSchema} {f g g' : Name → Name}
  {keys values objects : List Name} {x : Name}

/-! ### Replacing arguments -/

theorem Atom.mapArguments_congr {a : Atom} (h : ∀ x ∈ a.arguments, g x = g' x) :
    a.mapArguments g = a.mapArguments g' := by
  rw [mapArguments, mapArguments, List.map_congr_left h]

theorem Conjunction.mapArguments_congr {literals : Conjunction}
    (h : ∀ x ∈ Atom.argumentsOf literals.atoms, g x = g' x) :
    literals.mapArguments g = literals.mapArguments g' := by
  have hatom : ∀ a ∈ literals.atoms, a.mapArguments g = a.mapArguments g' := fun a ha =>
    Atom.mapArguments_congr fun x hx => h x (List.mem_flatMap.mpr ⟨a, ha, hx⟩)
  rw [mapArguments, mapArguments,
    List.map_congr_left fun a ha => hatom a (List.mem_append_left _ ha),
    List.map_congr_left fun a ha => hatom a (List.mem_append_right _ ha)]

theorem Conjunction.mapArguments_mapArguments (literals : Conjunction) :
    (literals.mapArguments g).mapArguments g' = literals.mapArguments (g' ∘ g) := by
  simp [mapArguments, Atom.mapArguments]

/-! ### Places of names -/

theorem lookup_zip (hlength : keys.length = values.length) :
    (keys.zip values).lookup x = values[keys.idxOf x]? := by
  induction keys generalizing values with
  | nil => simp_all
  | cons key keys ih =>
    cases values with
    | nil => simp at hlength
    | cons value values =>
      by_cases hx : x = key
      · simp [hx]
      · have hne : (x == key) = false := by simpa using hx
        rw [List.zip_cons_cons, List.lookup_cons, hne, List.idxOf_cons_ne _ (Ne.symm hx),
          List.getElem?_cons_succ]
        exact ih (Nat.succ.inj hlength)

/-- A name that no other key is mapped to is found in its old place. -/
theorem idxOf_map_eq {y : Name} (h : ∀ key ∈ keys, f key = y ↔ key = x) :
    (keys.map f).idxOf y = keys.idxOf x := by
  induction keys with
  | nil => rfl
  | cons key keys ih =>
    obtain ⟨hkey, hkeys⟩ := List.forall_mem_cons.mp h
    by_cases hx : key = x
    · subst hx
      rw [← hkey.mpr rfl, List.map_cons, List.idxOf_cons_self, List.idxOf_cons_self]
    · rw [List.map_cons, List.idxOf_cons_ne _ (mt hkey.mp hx), List.idxOf_cons_ne _ hx, ih hkeys]

namespace ActionSchema

theorem values_renamed : (schema.renamed f).parameters.values = schema.parameters.values.map f := by
  simp [renamed, TypedList.values]

theorem instantiate_eq (hlength : schema.parameters.values.length = objects.length) :
    GroundAction.instantiate schema objects =
      { name := schema.name
        arguments := objects
        precondition := schema.precondition.mapArguments (schema.replacement objects)
        effect := schema.effect.mapArguments (schema.replacement objects) } := by
  have hreplace : (fun x => ((schema.parameters.values.zip objects).lookup x).getD x) =
      schema.replacement objects := by
    funext x
    rw [lookup_zip hlength, replacement]
  simp only [GroundAction.instantiate, Conjunction.substitute, Conjunction.mapArguments,
    Atom.substitute, Atom.mapArguments, hreplace]

/-! ### Other names -/

/-- Of the parameters only `x` itself gets the new name of an argument `x`. -/
theorem CanRename.eq_newName_iff (hf : schema.CanRename f)
    (hx : x ∈ Atom.argumentsOf schema.literals) {key : Name}
    (hkey : key ∈ schema.parameters.values) : f key = schema.newName f x ↔ key = x := by
  unfold newName
  split
  · case isTrue hparameter => exact ⟨hf.apart key hkey x hparameter, congrArg f⟩
  · case isFalse hother =>
    exact ⟨fun heq => absurd heq (hf.fresh key hkey x hx hother),
      fun heq => absurd (heq ▸ hkey) hother⟩

theorem CanRename.replacement_newName (hf : schema.CanRename f)
    (hlength : schema.parameters.values.length = objects.length)
    (hx : x ∈ Atom.argumentsOf schema.literals) :
    (schema.renamed f).replacement objects (schema.newName f x) =
      schema.replacement objects x := by
  rw [replacement, replacement, values_renamed, idxOf_map_eq fun key => hf.eq_newName_iff hx]
  by_cases hparameter : x ∈ schema.parameters.values
  · have hplace : schema.parameters.values.idxOf x < objects.length :=
      hlength ▸ List.idxOf_lt_length_iff.mpr hparameter
    rw [List.getElem?_eq_getElem hplace, Option.getD_some, Option.getD_some]
  · rw [newName, if_neg hparameter]

theorem CanRename.mapArguments_replacement (hf : schema.CanRename f)
    (hlength : schema.parameters.values.length = objects.length) (literals : Conjunction)
    (hliterals : ∀ a ∈ literals.atoms, a ∈ schema.literals) :
    (literals.mapArguments (schema.newName f)).mapArguments
        ((schema.renamed f).replacement objects) =
      literals.mapArguments (schema.replacement objects) := by
  rw [Conjunction.mapArguments_mapArguments]
  refine Conjunction.mapArguments_congr fun x hx => hf.replacement_newName hlength ?_
  obtain ⟨a, ha, hxa⟩ := List.mem_flatMap.mp hx
  exact List.mem_flatMap.mpr ⟨a, hliterals a ha, hxa⟩

theorem CanRename.instantiate_renamed (hf : schema.CanRename f)
    (hlength : schema.parameters.values.length = objects.length) :
    GroundAction.instantiate (schema.renamed f) objects = .instantiate schema objects := by
  have hlength' : (schema.renamed f).parameters.values.length = objects.length := by
    rw [values_renamed, List.length_map, hlength]
  have hprecondition := hf.mapArguments_replacement hlength schema.precondition
    fun _ => List.mem_append_left _
  have heffect := hf.mapArguments_replacement hlength schema.effect
    fun _ => List.mem_append_right _
  rw [instantiate_eq hlength', instantiate_eq hlength, ← hprecondition, ← heffect]
  rfl

/-! ### Grounding -/

theorem length_of_mem_keptAssignments (hobjects : objects ∈ Domain.keptAssignments c rules schema) :
    schema.parameters.values.length = objects.length :=
  (mem_choices_options.mp (List.mem_filter.mp hobjects).1).length

/-- The types decide which objects there are to choose from, and not the names. -/
theorem keptAssignments_renamed :
    Domain.keptAssignments c rules (schema.renamed f) = Domain.keptAssignments c rules schema := by
  have hoptions : (schema.renamed f).parameters.map c.options = schema.parameters.map c.options :=
    List.map_map
  rw [Domain.keptAssignments, Domain.keptAssignments, hoptions]
  rfl

theorem ground_eq_find? (schema : ActionSchema) : schema.ground c rules =
    (schema.parameters.find? fun parameter => (c.objects? parameter.type).isNone).elim
      (.ok ((Domain.keptAssignments c rules schema).map (GroundAction.instantiate schema)))
      fun parameter =>
        .error (.undeclaredType parameter.value .action schema.name parameter.type) := by
  rw [Domain.ground_eq, findSome?_undeclared?]
  cases schema.parameters.find? fun parameter => (c.objects? parameter.type).isNone <;> rfl

theorem CanRename.ground_renamed (hf : schema.CanRename f) : (schema.renamed f).ground c rules =
    (schema.parameters.find? fun parameter => (c.objects? parameter.type).isNone).elim
      (.ok ((Domain.keptAssignments c rules schema).map (GroundAction.instantiate schema)))
      fun parameter =>
        .error (.undeclaredType (f parameter.value) .action schema.name parameter.type) := by
  have hactions : (Domain.keptAssignments c rules schema).map
      (GroundAction.instantiate (schema.renamed f)) =
        (Domain.keptAssignments c rules schema).map (GroundAction.instantiate schema) :=
    List.map_congr_left fun objects hobjects =>
      hf.instantiate_renamed (length_of_mem_keptAssignments hobjects)
  rw [ground_eq_find?, keptAssignments_renamed, hactions, renamed, List.find?_map, Option.elim_map]
  rfl

/-- Grounding does not depend on what the parameters are called. The renamed schema has the same
ground actions in the same order, or is refused for the same parameter. In a ground action every
literal is that of the schema with each argument replaced by itself: by the object at the place of
the first parameter of this name, and not at all if there is none. -/
theorem ground_renamed_eq_ok_iff (hf : schema.CanRename f) (c : Catalog)
    (rules : List PruningRule) :
    (∀ actions, (schema.renamed f).ground c rules = .ok actions ↔
      schema.ground c rules = .ok actions) ∧
    (∀ x type, schema.ground c rules = .error (.undeclaredType x .action schema.name type) →
      (schema.renamed f).ground c rules =
        .error (.undeclaredType (f x) .action schema.name type)) ∧
    ∀ actions, schema.ground c rules = .ok actions → ∀ a ∈ actions,
      a.precondition = schema.precondition.mapArguments (schema.replacement a.arguments) ∧
      a.effect = schema.effect.mapArguments (schema.replacement a.arguments) := by
  rw [hf.ground_renamed, ground_eq_find?]
  cases schema.parameters.find? fun parameter => (c.objects? parameter.type).isNone with
  | some parameter =>
    refine ⟨fun _ => ⟨nofun, nofun⟩, fun x type heq => ?_, nofun⟩
    cases heq
    rfl
  | none =>
    refine ⟨fun _ => Iff.rfl, nofun, fun actions heq a ha => ?_⟩
    cases heq
    obtain ⟨objects, hobjects, rfl⟩ := List.mem_map.mp ha
    rw [instantiate_eq (length_of_mem_keptAssignments hobjects)]
    exact ⟨rfl, rfl⟩

/-- A schema with a parameter that occurs twice in an atom, and a constant. -/
def greet : ActionSchema where
  name := "greet"
  parameters := [⟨"?x", "object"⟩, ⟨"?y", "object"⟩]
  precondition := ⟨[⟨"near", ["?x", "?y", "?x"]⟩], [⟨"greeted", ["home", "?y"]⟩]⟩
  effect := ⟨[⟨"greeted", ["?y", "?x"]⟩], []⟩

/-- The parameters change their names with each other. -/
def exchange (x : Name) : Name := if x = "?x" then "?y" else "?x"

/-- The objects are called like the parameters. -/
def hall : Catalog := ⟨[("object", ["?y", "?x"])]⟩

/-- What is left where nobody greets himself. -/
def greetings : List GroundAction :=
  [{ name := "greet"
     arguments := ["?y", "?x"]
     precondition := ⟨[⟨"near", ["?y", "?x", "?y"]⟩], [⟨"greeted", ["home", "?x"]⟩]⟩
     effect := ⟨[⟨"greeted", ["?x", "?y"]⟩], []⟩ },
   { name := "greet"
     arguments := ["?x", "?y"]
     precondition := ⟨[⟨"near", ["?x", "?y", "?x"]⟩], [⟨"greeted", ["home", "?y"]⟩]⟩
     effect := ⟨[⟨"greeted", ["?y", "?x"]⟩], []⟩ }]

theorem ground_renamed_eq_ok_iff_greet :
    greet.CanRename exchange ∧
      (greet.renamed exchange).ground hall [⟨"greet", 0, 1⟩] = .ok greetings ∧
      (greet.renamed exchange).ground ⟨[]⟩ [] =
        .error (.undeclaredType "?y" .action "greet" "object") := by
  have hf : greet.CanRename exchange := ⟨by decide, by decide⟩
  have hground : greet.ground hall [⟨"greet", 0, 1⟩] = .ok greetings := by decide +kernel
  have hfault : greet.ground ⟨[]⟩ [] = .error (.undeclaredType "?x" .action "greet" "object") := rfl
  exact ⟨hf, ((ground_renamed_eq_ok_iff hf _ _).1 _).mpr hground,
    (ground_renamed_eq_ok_iff hf _ _).2.1 _ _ hfault⟩

end ActionSchema

end StripsReach
