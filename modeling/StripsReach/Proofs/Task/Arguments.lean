import StripsReach.Proofs.Grounding.Actions
import StripsReach.Task

/-!
# Arguments of ground literals

Instantiating a schema puts a declared object in the place of every parameter. All other arguments
of its literals stay as they were written, and nothing asks what they are: in a task that has been
read the arguments of a ground action's literals that are no declared objects are those of its
schema that are neither parameters nor declared objects.
-/

namespace StripsReach

/-- The arguments of atoms, each as often as it is written. -/
def Atom.argumentsOf (atoms : List Atom) : List Name := atoms.flatMap Atom.arguments

def Conjunction.atoms (c : Conjunction) : List Atom := c.positive ++ c.negative

/-- The atoms that the schema needs, those that it needs to be false, and those that it adds and
deletes. -/
def ActionSchema.literals (schema : ActionSchema) : List Atom :=
  schema.precondition.atoms ++ schema.effect.atoms

def GroundAction.literals (a : GroundAction) : List Atom := a.precondition.atoms ++ a.effect.atoms

variable {keys values : List Name} {x o : Name}

/-! ### Substitution -/

/-- A key is replaced by a value, and what is no key is kept. -/
theorem lookup_zip_cases (hlength : keys.length = values.length) :
    (x ∈ keys ∧ ((keys.zip values).lookup x).getD x ∈ values) ∨
      (x ∉ keys ∧ ((keys.zip values).lookup x).getD x = x) := by
  cases hlookup : (keys.zip values).lookup x with
  | some v =>
    obtain ⟨before, after, hzip, -⟩ := List.lookup_eq_some_iff.mp hlookup
    have hmem : (x, v) ∈ keys.zip values := by simp [hzip]
    exact .inl (List.of_mem_zip hmem)
  | none =>
    refine .inr ⟨fun hx => ?_, rfl⟩
    rw [← List.map_fst_zip hlength.le] at hx
    obtain ⟨pair, hpair, rfl⟩ := List.mem_map.mp hx
    simpa using List.lookup_eq_none_iff.mp hlookup pair hpair

theorem literals_instantiate (schema : ActionSchema) (objects : List Name) :
    (GroundAction.instantiate schema objects).literals =
      schema.literals.map (·.substitute (schema.parameters.values.zip objects)) := by
  simp [GroundAction.literals, ActionSchema.literals, GroundAction.instantiate,
    Conjunction.substitute, Conjunction.atoms]

theorem argumentsOf_substitute (bindings : List (Name × Name)) (atoms : List Atom) :
    Atom.argumentsOf (atoms.map (·.substitute bindings)) =
      (Atom.argumentsOf atoms).map fun x => (bindings.lookup x).getD x := by
  simp [Atom.argumentsOf, Atom.substitute, List.flatMap_map, List.map_flatMap]

/-- What is not put in by the assignment was written, and not as a parameter. -/
theorem mem_argumentsOf_instantiate {schema : ActionSchema} {objects : List Name}
    (hlength : schema.parameters.values.length = objects.length) (ho : o ∉ objects) :
    o ∈ Atom.argumentsOf (GroundAction.instantiate schema objects).literals ↔
      o ∈ Atom.argumentsOf schema.literals ∧ o ∉ schema.parameters.values := by
  rw [literals_instantiate, argumentsOf_substitute, List.mem_map]
  constructor
  · rintro ⟨x, hx, rfl⟩
    rcases lookup_zip_cases (x := x) hlength with ⟨-, hobject⟩ | ⟨hkey, heq⟩
    · exact absurd hobject ho
    · rw [heq]
      exact ⟨hx, hkey⟩
  · rintro ⟨hwritten, hkey⟩
    rcases lookup_zip_cases (x := o) hlength with ⟨hparameter, -⟩ | ⟨-, heq⟩
    · exact absurd hparameter hkey
    · exact ⟨o, hwritten, heq⟩

namespace Task

variable {least : Level} {config : Config} {domainText problemText : String} {t : Task}
  {events : List Event}

/-- A task that has been read: its domain comes from an expression, its catalog holds its objects,
and its actions are those of the domain over the catalog. -/
structure Read (config : Config) (t : Task) : Prop where
  domain : ∃ e, Domain.ofSExpr e = .ok t.domain
  catalog : Catalog.close t.domain.types t.problem.objects config.flattened = .ok t.problem.catalog
  actions : t.domain.groundActions t.problem.catalog config.rules = .ok t.actions

theorem read_of_ofTexts (h : ofTexts least config domainText problemText = .ok (t, events)) :
    Read config t := by
  obtain ⟨⟨domain, warnings⟩, hdomain, h⟩ := exists_of_bind_eq_ok h
  obtain ⟨e, -, hdomain⟩ := exists_of_bind_eq_ok hdomain
  obtain ⟨domain, hread, hdomain⟩ := exists_of_bind_eq_ok hdomain
  cases hdomain
  obtain ⟨⟨problem, problemEvents⟩, hproblem, h⟩ := exists_of_bind_eq_ok h
  obtain ⟨groundingEvents, -, h⟩ := exists_of_bind_eq_ok h
  obtain ⟨task, hground, h⟩ := exists_of_bind_eq_ok h
  cases h
  obtain ⟨actions, hactions, hground⟩ := exists_of_bind_eq_ok hground
  cases hground
  obtain ⟨e', -, hproblem⟩ := exists_of_bind_eq_ok hproblem
  obtain ⟨problem, hsections, hproblem⟩ := exists_of_bind_eq_ok hproblem
  cases hproblem
  refine ⟨⟨e, hread⟩, ?_, hactions⟩
  rw [Problem.ofSExpr] at hsections
  split at hsections
  · obtain ⟨text, -, hsections⟩ := exists_of_bind_eq_ok hsections
    obtain ⟨catalog, hclose, hsections⟩ := exists_of_bind_eq_ok hsections
    cases hsections
    exact hclose
  · cases hsections

theorem Read.exists_fits {a : GroundAction} (hread : Read config t) (ha : a ∈ t.actions) :
    ∃ schema ∈ t.domain.actions, ∃ objects, Fits t.problem.catalog schema.parameters objects ∧
      a = GroundAction.instantiate schema objects := by
  have hactions := hread.actions
  rw [Domain.groundActions_eq] at hactions
  cases hfirst : t.problem.catalog.firstUnknown? t.domain.actionSignatures with
  | some owned =>
    rw [hfirst] at hactions
    cases hactions
  | none =>
    rw [hfirst] at hactions
    rw [← Except.ok.inj hactions] at ha
    obtain ⟨schema, hschema, ha⟩ := List.mem_flatMap.mp ha
    obtain ⟨objects, hobjects, rfl⟩ := List.mem_map.mp ha
    exact ⟨schema, hschema, objects, mem_choices_options.mp (List.mem_filter.mp hobjects).1, rfl⟩

theorem Read.mem_argumentsOf_iff {a : GroundAction} (hread : Read config t) (ha : a ∈ t.actions) :
    ∃ schema ∈ t.domain.actions, a.name = schema.name ∧ ∀ o ∉ t.problem.objects.values,
      (o ∈ Atom.argumentsOf a.literals ↔
        o ∈ Atom.argumentsOf schema.literals ∧ o ∉ schema.parameters.values) := by
  obtain ⟨schema, hschema, objects, hfits, rfl⟩ := hread.exists_fits ha
  refine ⟨schema, hschema, rfl, fun o ho => mem_argumentsOf_instantiate hfits.length fun hmem => ?_⟩
  obtain ⟨type, options, hoptions, hobject⟩ := hfits.exists_type hmem
  exact ho (Catalog.mem_values_of_close hread.catalog hoptions hobject)

/-- Which schemas keep all arguments declared. Those without ground actions do not count. -/
theorem Read.forall_mem_values_iff (hread : Read config t) :
    (∀ a ∈ t.actions, ∀ o ∈ Atom.argumentsOf a.literals, o ∈ t.problem.objects.values) ↔
      ∀ schema ∈ t.domain.actions, (∃ a ∈ t.actions, a.name = schema.name) →
        ∀ x ∈ Atom.argumentsOf schema.literals,
          x ∈ schema.parameters.values ∨ x ∈ t.problem.objects.values := by
  obtain ⟨e, hdomain⟩ := hread.domain
  have hnames := (Domain.distinctNames_of_ofSExpr hdomain).actions
  constructor
  · rintro hall schema hschema ⟨a, ha, hname⟩ x hx
    obtain ⟨schema', hschema', hname', hundeclared⟩ := hread.mem_argumentsOf_iff ha
    -- The ground action comes from this schema, since no other has its name.
    obtain rfl := List.inj_on_of_nodup_map hnames hschema hschema' (hname.symm.trans hname')
    by_contra hneither
    rw [not_or] at hneither
    exact hneither.2 (hall a ha x ((hundeclared x hneither.2).mpr ⟨hx, hneither.1⟩))
  · intro hall a ha o ho
    obtain ⟨schema, hschema, hname, hundeclared⟩ := hread.mem_argumentsOf_iff ha
    by_contra hnot
    obtain ⟨hwritten, hparameter⟩ := (hundeclared o hnot).mp ho
    rcases hall schema hschema ⟨a, ha, hname⟩ o hwritten with hkey | hobject
    · exact hparameter hkey
    · exact hnot hobject

/-- An argument of a ground literal that is no declared object stands in the schema too, and is no
parameter there. So all arguments are declared objects exactly if those schemas that have ground
actions are written with their parameters and declared objects only. -/
theorem undeclared_arguments_iff
    (h : ofTexts least config domainText problemText = .ok (t, events)) :
    (∀ a ∈ t.actions, ∃ schema ∈ t.domain.actions, a.name = schema.name ∧
        ∀ o ∉ t.problem.objects.values, (o ∈ Atom.argumentsOf a.literals ↔
          o ∈ Atom.argumentsOf schema.literals ∧ o ∉ schema.parameters.values)) ∧
      ((∀ a ∈ t.actions, ∀ o ∈ Atom.argumentsOf a.literals, o ∈ t.problem.objects.values) ↔
        ∀ schema ∈ t.domain.actions, (∃ a ∈ t.actions, a.name = schema.name) →
          ∀ x ∈ Atom.argumentsOf schema.literals,
            x ∈ schema.parameters.values ∨ x ∈ t.problem.objects.values) :=
  have hread := read_of_ofTexts h
  ⟨fun _ ha => hread.mem_argumentsOf_iff ha, hread.forall_mem_values_iff⟩

/-- Loading is about an object that is not declared. -/
def haulDomain : Domain where
  types := ⟨["object", "truck"], [("object", ["truck"]), ("truck", [])], [("truck", "object")]⟩
  actions := [
    { name := "visit"
      parameters := [⟨"?p", "object"⟩]
      effect := { positive := [⟨"seen", ["?p", "home"]⟩] } },
    { name := "load"
      parameters := [⟨"?t", "truck"⟩]
      effect := { positive := [⟨"at", ["?t", "depot"]⟩] } }]

/-- There is no truck to load. -/
def haul : Task where
  domain := haulDomain
  problem :=
    { domain := "unknown"
      objects := [⟨"home", "object"⟩]
      catalog := ⟨[("object", ["home"]), ("truck", [])]⟩ }
  actions := [
    { name := "visit"
      arguments := ["home"]
      precondition := {}
      effect := { positive := [⟨"seen", ["home", "home"]⟩] } }]

theorem undeclared_arguments_iff_haul :
    ofTexts .error {}
        "(define (:types truck) (:action visit :parameters (?p) :effect (seen ?p home))
          (:action load :parameters (?t - truck) :effect (at ?t depot)))"
        "(define (:objects home))" = .ok (haul, []) ∧
      ∀ a ∈ haul.actions, ∀ o ∈ Atom.argumentsOf a.literals, o ∈ haul.problem.objects.values := by
  have hread : ofTexts .error {}
      "(define (:types truck) (:action visit :parameters (?p) :effect (seen ?p home))
          (:action load :parameters (?t - truck) :effect (at ?t depot)))"
      "(define (:objects home))" = .ok (haul, []) := by
    decide +kernel
  exact ⟨hread, (undeclared_arguments_iff hread).2.mpr (by decide)⟩

/-- A schema with a variable that is no parameter. -/
def misspelt : ActionSchema where
  name := "move"
  parameters := [⟨"?a", "object"⟩]
  effect := { positive := [⟨"moved", ["?b"]⟩] }

def slip : Task where
  domain := { name := "blocks", actions := [misspelt] }
  problem :=
    { name := "one"
      domain := "blocks"
      objects := [⟨"b1", "object"⟩]
      catalog := ⟨[("object", ["b1"])]⟩ }
  actions := [.instantiate misspelt ["b1"]]

/-- The variable gets into the ground actions as it is. -/
theorem exists_undeclared_argument : ∃ t events,
    ofTexts .error {}
        "(define (domain blocks) (:action move :parameters (?a) :effect (moved ?b)))"
        "(define (problem one) (:domain blocks) (:objects b1))" = .ok (t, events) ∧
      ¬ ∀ a ∈ t.actions, ∀ o ∈ Atom.argumentsOf a.literals, o ∈ t.problem.objects.values :=
  ⟨slip, [], by decide +kernel, by decide⟩

end Task

end StripsReach
