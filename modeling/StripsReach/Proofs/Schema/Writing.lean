import Mathlib.Data.List.Perm.Basic
import StripsReach.Proofs.Conjunction.Writing
import StripsReach.Proofs.TypedList.Runs
import StripsReach.Schema.Action

/-!
# Written action schemas

The definition of an action can be written in many ways: its parts come in any order, expressions
that are no keys may stand between them, and a conjunction may mix what it asserts with what it
negates. All of them are read as the same schema. A part is read by itself and put into the schema,
so the order of the parts does not matter; and what is no key is passed over alone, so no key is
taken for a value.
-/

namespace StripsReach

variable {context : String}

/-! ### Typed lists -/

namespace TypedList

variable {list : TypedList}

/-- The list with a hyphen and a type after each of its names. -/
def toItems (list : TypedList) : List SExpr :=
  list.flatMap fun entry => [.word entry.value, .word "-", .word entry.type]

/-- Each entry is a run of its own. -/
theorem inRuns_toItems (list : TypedList) : list.InRuns list.toItems := by
  induction list with
  | nil => exact .nil
  | cons entry list ih =>
    exact .run (List.cons_ne_nil entry []) (List.forall_mem_singleton.mpr rfl) ih

theorem ofItems_toItems (hlist : ∀ entry ∈ list, entry.value ≠ "-") :
    ofItems context list.toItems = .ok list :=
  ofItems_of_inRuns hlist (inRuns_toItems list)

end TypedList

/-! ### Conjunctions -/

/-- The facts are positive and negative ones about the atoms of two lists, each in its order. -/
inductive Interleaves : List Atom → List Atom → List Fact → Prop
  | nil : Interleaves [] [] []
  | holding {positive negative : List Atom} {facts : List Fact} (a : Atom) :
      Interleaves positive negative facts →
      Interleaves (a :: positive) negative (.holding a :: facts)
  | deleted {positive negative : List Atom} {facts : List Fact} (a : Atom) :
      Interleaves positive negative facts →
      Interleaves positive (a :: negative) (.deleted a :: facts)

namespace Interleaves

variable {positive negative : List Atom} {facts : List Fact}

theorem ofFacts_eq (h : Interleaves positive negative facts) :
    Conjunction.ofFacts facts = ⟨positive, negative⟩ := by
  induction h with
  | nil => rfl
  | holding a _ ih =>
    unfold Conjunction.ofFacts at ih ⊢
    simpa [Fact.holding] using ih
  | deleted a _ ih =>
    unfold Conjunction.ofFacts at ih ⊢
    simpa [Fact.deleted] using ih

theorem unambiguous (h : Interleaves positive negative facts)
    (hnot : ∀ a ∈ positive, a.predicate ≠ "not") : ∀ f ∈ facts, f.Unambiguous := by
  induction h with
  | nil => exact List.forall_mem_nil _
  | holding a _ ih =>
    obtain ⟨ha, hpositive⟩ := List.forall_mem_cons.mp hnot
    exact List.forall_mem_cons.mpr ⟨fun _ => ha, ih hpositive⟩
  | deleted a _ ih => exact List.forall_mem_cons.mpr ⟨nofun, ih hnot⟩

theorem ofSExpr_toSExpr (h : Interleaves positive negative facts)
    (hnot : ∀ a ∈ positive, a.predicate ≠ "not") :
    Conjunction.ofSExpr context (Conjunction.toSExpr facts) = .ok ⟨positive, negative⟩ := by
  rw [Conjunction.ofSExpr_toSExpr (h.unambiguous hnot), h.ofFacts_eq]

end Interleaves

/-! ### Parts of a schema -/

theorem SExpr.isWord_iff {e : SExpr} {keyword : Name} :
    e.isWord keyword = true ↔ e = .word keyword := by
  cases e <;> simp [SExpr.isWord]

namespace ActionSchema

variable {schema start next : ActionSchema} {part : Part} {parts : List Part} {value e : SExpr}
  {items : List SExpr}

/-- The expression after the key of a part writes this part of the schema. -/
inductive Writes (schema : ActionSchema) : Part → SExpr → Prop
  | parameters : Writes schema .parameters (.list schema.parameters.toItems)
  | precondition {facts : List Fact} :
      Interleaves schema.precondition.positive schema.precondition.negative facts →
      Writes schema .precondition (Conjunction.toSExpr facts)
  | effect {facts : List Fact} :
      Interleaves schema.effect.positive schema.effect.negative facts →
      Writes schema .effect (Conjunction.toSExpr facts)

/-- The items write the parts in this order. Before a key and at the end there may be expressions
that are no keys. -/
inductive WrittenAs (schema : ActionSchema) : List Part → List SExpr → Prop
  | nil : WrittenAs schema [] []
  | stray {parts : List Part} {items : List SExpr} {e : SExpr} :
      (∀ part : Part, e ≠ .word part.key) →
      WrittenAs schema parts items → WrittenAs schema parts (e :: items)
  | part {part : Part} {parts : List Part} {value : SExpr} {items : List SExpr} :
      Writes schema part value → WrittenAs schema parts items →
      WrittenAs schema (part :: parts) (.word part.key :: value :: items)

/-- The schema with one part taken from another. -/
def takePart (source schema : ActionSchema) : Part → ActionSchema
  | .parameters => { schema with parameters := source.parameters }
  | .precondition => { schema with precondition := source.precondition }
  | .effect => { schema with effect := source.effect }

theorem Part.ofSExpr?_key (part : Part) : Part.ofSExpr? (.word part.key) = some part := by
  cases part <;> rfl

theorem Part.ofSExpr?_eq_none (he : ∀ part : Part, e ≠ .word part.key) :
    Part.ofSExpr? e = none := by
  refine List.find?_eq_none.mpr fun part _ hword => ?_
  exact he part (SExpr.isWord_iff.mp hword)

theorem name_of_withPart (h : schema.withPart part e = .ok next) : next.name = schema.name := by
  cases part with
  | parameters =>
    unfold withPart at h
    dsimp only at h
    split at h
    · cases h
    · split at h
      · cases h
        rfl
      · cases h
  | precondition =>
    obtain ⟨precondition, -, hnext⟩ := exists_of_bind_eq_ok h
    cases hnext
    rfl
  | effect =>
    obtain ⟨effect, -, hnext⟩ := exists_of_bind_eq_ok h
    cases hnext
    rfl

theorem name_of_withParts (h : schema.withParts items = .ok next) : next.name = schema.name := by
  fun_induction withParts schema items with
  | case1 schema =>
    cases h
    rfl
  | case2 schema e rest hnone ih => exact ih h
  | case3 => cases h
  | case4 schema e part hpart value rest next' hvalue ih =>
    exact (ih h).trans (name_of_withPart hvalue)
  | case5 => cases h

/-- A written part is read as it is in the schema, whatever has been read before. -/
theorem withPart_eq_takePart (hnames : ∀ entry ∈ schema.parameters, entry.value ≠ "-")
    (hneeds : ∀ a ∈ schema.precondition.positive, a.predicate ≠ "not")
    (hadds : ∀ a ∈ schema.effect.positive, a.predicate ≠ "not")
    (hwrites : schema.Writes part value) (start : ActionSchema) :
    start.withPart part value = .ok (schema.takePart start part) := by
  cases hwrites with
  | parameters =>
    unfold withPart
    simp only [TypedList.ofItems_toItems hnames]
    rfl
  | precondition hfacts =>
    unfold withPart
    simp only [hfacts.ofSExpr_toSExpr hneeds]
    rfl
  | effect hfacts =>
    unfold withPart
    simp only [hfacts.ofSExpr_toSExpr hadds]
    rfl

theorem withParts_eq_foldl (hnames : ∀ entry ∈ schema.parameters, entry.value ≠ "-")
    (hneeds : ∀ a ∈ schema.precondition.positive, a.predicate ≠ "not")
    (hadds : ∀ a ∈ schema.effect.positive, a.predicate ≠ "not")
    (hwritten : schema.WrittenAs parts items) (start : ActionSchema) :
    start.withParts items = .ok (parts.foldl schema.takePart start) := by
  induction hwritten generalizing start with
  | nil => rfl
  | stray he _ ih =>
    unfold withParts
    rw [Part.ofSExpr?_eq_none he]
    exact ih start
  | part hwrites _ ih =>
    unfold withParts
    rw [Part.ofSExpr?_key]
    simp only [withPart_eq_takePart hnames hneeds hadds hwrites]
    exact ih _

/-- Parts can be taken over in any order. -/
instance (source : ActionSchema) : RightCommutative source.takePart where
  right_comm schema part other := by cases part <;> cases other <;> rfl

theorem foldl_takePart (hparts : parts.Perm [.parameters, .precondition, .effect])
    (hname : start.name = schema.name) : parts.foldl schema.takePart start = schema := by
  rw [hparts.foldl_eq]
  obtain ⟨name, parameters, precondition, effect⟩ := schema
  obtain rfl : start.name = name := hname
  rfl

/-- However a schema is written, it is read back: with its parts in any order, with expressions that
are no keys before each key and at the end, and with the negated literals anywhere among the others.
-/
theorem ofItems_of_written (hnames : ∀ entry ∈ schema.parameters, entry.value ≠ "-")
    (hneeds : ∀ a ∈ schema.precondition.positive, a.predicate ≠ "not")
    (hadds : ∀ a ∈ schema.effect.positive, a.predicate ≠ "not")
    (hparts : parts.Perm [.parameters, .precondition, .effect])
    (hwritten : schema.WrittenAs parts items) :
    ofItems (.word schema.name :: items) = .ok schema := by
  show withParts { name := schema.name } items = _
  have hall : parts.foldl schema.takePart { name := schema.name } = schema :=
    foldl_takePart hparts rfl
  rw [withParts_eq_foldl hnames hneeds hadds hwritten, hall]

/-- A schema that needs an atom to be false whose predicate is the word for negation. -/
def stack : ActionSchema where
  name := "stack"
  parameters := [⟨"?x", "block"⟩, ⟨"?y", "surface"⟩]
  precondition := ⟨[⟨"clear", ["?y"]⟩, ⟨"held", ["?x"]⟩], [⟨"not", ["?x"]⟩]⟩
  effect := ⟨[⟨"on", ["?x", "?y"]⟩], [⟨"held", ["?x"]⟩, ⟨"clear", ["?y"]⟩]⟩

/-- The schema with its effect first, its second precondition negated, and expressions between the
parts that look like keys or values. -/
def stackItems : List SExpr :=
  [.word ":duration", .list [.word "and"],
    .word ":effect", Conjunction.toSExpr
      [.deleted ⟨"held", ["?x"]⟩, .holding ⟨"on", ["?x", "?y"]⟩, .deleted ⟨"clear", ["?y"]⟩],
    .list [.word ":effect"],
    .word ":parameters", .list stack.parameters.toItems,
    .word ":precondition", Conjunction.toSExpr
      [.holding ⟨"clear", ["?y"]⟩, .deleted ⟨"not", ["?x"]⟩, .holding ⟨"held", ["?x"]⟩],
    .word "and"]

theorem stack_writtenAs :
    stack.WrittenAs [.effect, .parameters, .precondition] stackItems := by
  have hword : ∀ part : Part, ∀ name ∈ [":duration", "and"], SExpr.word name ≠ .word part.key := by
    intro part
    cases part <;> decide
  have hlist : ∀ inner, ∀ part : Part, SExpr.list inner ≠ .word part.key := fun _ _ => nofun
  have heffect : stack.Writes .effect _ := .effect (.deleted _ (.holding _ (.deleted _ .nil)))
  have hprecondition : stack.Writes .precondition _ :=
    .precondition (.holding _ (.deleted _ (.holding _ .nil)))
  apply WrittenAs.stray fun part => hword part _ (by simp)
  apply WrittenAs.stray (hlist _)
  apply WrittenAs.part heffect
  apply WrittenAs.stray (hlist _)
  apply WrittenAs.part .parameters
  apply WrittenAs.part hprecondition
  exact WrittenAs.stray (fun part => hword part _ (by simp)) .nil

theorem ofItems_of_written_stack :
    stack.WrittenAs [.effect, .parameters, .precondition] stackItems ∧
      ofItems (.word "stack" :: stackItems) = .ok stack :=
  ⟨stack_writtenAs, ofItems_of_written (by decide) (by decide) (by decide) (by decide)
    stack_writtenAs⟩

end ActionSchema

end StripsReach
