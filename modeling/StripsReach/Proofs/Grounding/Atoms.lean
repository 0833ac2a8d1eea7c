import StripsReach.Proofs.Catalog.Membership
import StripsReach.Proofs.Domain.Names
import StripsReach.Proofs.Grounding.Assignments

/-!
# The ground atoms of a domain

The predicates of a domain are grounded like its actions, with no rules. A domain that has been read
gives every name to one predicate, and a closed catalog lists an object once for a type, so no atom
is listed twice, and an atom is listed exactly if its arguments fit the predicate of its name.
-/

namespace StripsReach

/-- The names of the predicates with their parameters. -/
def Domain.predicateSignatures (d : Domain) : List (Name × TypedList) :=
  d.predicates.map fun schema => (schema.name, schema.parameters)

/-- The atom is an instance of a predicate of the domain, over objects of the types asked for. -/
def Instantiates (d : Domain) (c : Catalog) (x : Atom) : Prop :=
  ∃ schema ∈ d.predicates, x.predicate = schema.name ∧ Fits c schema.parameters x.arguments

/-- The list holds the ground atoms of a domain. -/
structure ListsAtoms (d : Domain) (c : Catalog) (atoms : List Atom) : Prop where
  in_order : ∃ tuples : PredicateSchema → List (List Name),
    (∀ schema ∈ d.predicates, Enumerates c schema.parameters (fun _ => True) (tuples schema)) ∧
    atoms = d.predicates.flatMap fun schema => (tuples schema).map (Atom.mk schema.name)
  mem_iff : ∀ x, x ∈ atoms ↔ Instantiates d c x
  nodup : atoms.Nodup

namespace Domain

variable {d : Domain} {c : Catalog} {tuples : PredicateSchema → List (List Name)}

theorem ground_predicate_eq (schema : PredicateSchema) : schema.ground c =
    (schema.parameters.findSome? (undeclared? c .predicate schema.name)).elim
      (.ok ((choices (schema.parameters.map c.options)).map (Atom.mk schema.name))) .error := by
  rw [PredicateSchema.ground, candidates_eq]
  cases schema.parameters.findSome? (undeclared? c .predicate schema.name) <;> rfl

theorem groundAtoms_eq (d : Domain) (c : Catalog) :
    d.groundAtoms c = (c.firstUnknown? d.predicateSignatures).elim
      (.ok (d.predicates.flatMap fun schema =>
        (choices (schema.parameters.map c.options)).map (Atom.mk schema.name)))
      fun owned => .error (.undeclaredType owned.2.value .predicate owned.1 owned.2.type) := by
  rw [groundAtoms, mapM_eq_findSome? ground_predicate_eq, findSome?_findSome?_undeclared?,
    ← predicateSignatures]
  cases c.firstUnknown? d.predicateSignatures <;> rfl

theorem mem_atoms_iff
    (henumerates : ∀ schema ∈ d.predicates,
      Enumerates c schema.parameters (fun _ => True) (tuples schema)) (x : Atom) :
    x ∈ (d.predicates.flatMap fun schema => (tuples schema).map (Atom.mk schema.name)) ↔
      Instantiates d c x := by
  rw [List.mem_flatMap]
  refine exists_congr fun schema => and_congr_right fun hschema => ?_
  rw [List.mem_map]
  constructor
  · rintro ⟨objects, hobjects, rfl⟩
    exact ⟨rfl, (((henumerates schema hschema).mem_iff objects).mp hobjects).1⟩
  · obtain ⟨predicate, objects⟩ := x
    rintro ⟨hname, hfits⟩
    refine ⟨objects, ((henumerates schema hschema).mem_iff objects).mpr ⟨hfits, trivial⟩, ?_⟩
    exact congrArg (Atom.mk · objects) hname.symm

/-- Atoms of different predicates differ in the name, those of one predicate in the arguments. -/
theorem nodup_atoms (hd : d.DistinctNames)
    (hnodup : ∀ schema ∈ d.predicates, (tuples schema).Nodup) :
    (d.predicates.flatMap fun schema => (tuples schema).map (Atom.mk schema.name)).Nodup := by
  rw [List.nodup_flatMap]
  constructor
  · intro schema hschema
    apply (hnodup schema hschema).map
    exact fun objects objects' heq => congrArg Atom.arguments heq
  · refine (List.pairwise_map.mp hd.predicates).imp fun hne x hx hother => ?_
    obtain ⟨_, -, rfl⟩ := List.mem_map.mp hx
    obtain ⟨_, -, heq⟩ := List.mem_map.mp hother
    exact hne (congrArg Atom.predicate heq).symm

theorem listsAtoms_of_enumerates (hd : d.DistinctNames)
    (henumerates : ∀ schema ∈ d.predicates,
      Enumerates c schema.parameters (fun _ => True) (tuples schema)) :
    ListsAtoms d c
      (d.predicates.flatMap fun schema => (tuples schema).map (Atom.mk schema.name)) where
  in_order := ⟨tuples, henumerates, rfl⟩
  mem_iff := mem_atoms_iff henumerates
  nodup := nodup_atoms hd fun schema hschema => (henumerates schema hschema).nodup

/-- Predicates cannot be grounded exactly if some parameter has a type that the catalog does not
know, and then the first such parameter is named. Otherwise the atoms of every predicate follow
those of the one before. -/
theorem groundAtoms_enumerates {e : SExpr} {h : TypeHierarchy} {declarations : TypedList}
    {flattened : List FlattenedSubtype} (hread : ofSExpr e = .ok d)
    (hclose : Catalog.close h declarations flattened = .ok c) :
    ((∃ fault, d.groundAtoms c = .error fault) ↔
        ∃ schema ∈ d.predicates, ∃ parameter ∈ schema.parameters,
          c.objects? parameter.type = none) ∧
      (∀ owner parameter, c.firstUnknown? d.predicateSignatures = some (owner, parameter) →
        d.groundAtoms c =
          .error (.undeclaredType parameter.value .predicate owner parameter.type)) ∧
      (c.firstUnknown? d.predicateSignatures = none →
        ∃ atoms, d.groundAtoms c = .ok atoms ∧ ListsAtoms d c atoms) := by
  have hnone : c.firstUnknown? d.predicateSignatures = none ↔ ¬ ∃ schema ∈ d.predicates,
      ∃ parameter ∈ schema.parameters, c.objects? parameter.type = none := by
    simp [firstUnknown?_eq_none_iff, predicateSignatures]
  rw [groundAtoms_eq]
  refine ⟨?_, fun owner parameter hfirst => ?_, fun hfirst => ?_⟩
  · rw [← not_iff_not, ← hnone]
    cases c.firstUnknown? d.predicateSignatures <;> simp
  · rw [hfirst]
    rfl
  · rw [hfirst]
    refine ⟨_, rfl, listsAtoms_of_enumerates (distinctNames_of_ofSExpr hread) fun schema _ => ?_⟩
    apply enumerates_all
    intro type objects
    exact Catalog.nodup_of_close hclose

/-- A predicate without parameters, one with two, and one for a type without objects. -/
def sightings : SExpr :=
  .list [.word "define",
    .list [.word ":predicates",
      .list [.word "night"],
      .list [.word "at", .word "?t", .word "-", .word "truck", .word "?p"],
      .list [.word "seen", .word "?g", .word "-", .word "ghost", .word "?p"]]]

def seen : PredicateSchema := ⟨"seen", [⟨"?g", "ghost"⟩, ⟨"?p", "object"⟩]⟩

def nightDomain : Domain where
  predicates := [⟨"night", []⟩, ⟨"at", [⟨"?t", "truck"⟩, ⟨"?p", "object"⟩]⟩, seen]

/-- Where ghosts are known, but none is there. -/
def yard : Catalog := ⟨[("object", ["p", "t"]), ("ghost", []), ("truck", ["t"])]⟩

/-- Where ghosts are unknown. -/
def garage : Catalog := ⟨[("object", ["p", "t"]), ("truck", ["t"])]⟩

theorem groundAtoms_enumerates_sightings :
    ofSExpr sightings = .ok nightDomain ∧
      Catalog.close (.declare .root "ghost") [⟨"t", "truck"⟩, ⟨"p", "object"⟩] [] = .ok yard ∧
      (∃ atoms, nightDomain.groundAtoms yard = .ok atoms ∧ ListsAtoms nightDomain yard atoms) ∧
      Catalog.close .root [⟨"t", "truck"⟩, ⟨"p", "object"⟩] [] = .ok garage ∧
      nightDomain.groundAtoms garage =
        .error (.undeclaredType "?g" .predicate "seen" "ghost") := by
  have hread : ofSExpr sightings = .ok nightDomain := by decide +kernel
  have hyard : Catalog.close (.declare .root "ghost") [⟨"t", "truck"⟩, ⟨"p", "object"⟩] [] =
      .ok yard := by decide +kernel
  have hgarage : Catalog.close .root [⟨"t", "truck"⟩, ⟨"p", "object"⟩] [] = .ok garage := by
    decide +kernel
  obtain ⟨-, -, hlists⟩ := groundAtoms_enumerates hread hyard
  obtain ⟨-, hnames, -⟩ := groundAtoms_enumerates hread hgarage
  refine ⟨hread, hyard, hlists ?_, hgarage, hnames "seen" ⟨"?g", "ghost"⟩ ?_⟩
  · decide +kernel
  · decide +kernel

/-- No ghost is seen anywhere. -/
example : (nightDomain.groundAtoms yard).map (·.map Atom.text) =
    .ok ["(night)", "(at t p)", "(at t t)"] := by
  decide +kernel

end Domain

end StripsReach
