import Mathlib.Data.List.Basic
import StripsReach.Proofs.Atom.Order
import StripsReach.State

/-!
# States under operations

A state starts with atoms that hold, and then facts are inserted and actions applied to it in any
order. Its facts are those that have been put in: nothing is taken away, and no operation hides what
another one did. They are listed in ascending order, each once, so a state does not show how it came
about, and states are compared by their facts.
-/

namespace StripsReach.State

/-- What is done to a state. -/
inductive Operation where
  | insert (f : Fact)
  | apply (a : GroundAction)

/-- An inserted fact is put in as it is. Of an action the atoms that it deletes are put in as
deleted and those that it adds as holding. -/
def Operation.Puts : Operation → Fact → Prop
  | insert g, f => f = g
  | apply a, f => (∃ x ∈ a.deletes, f = .deleted x) ∨ ∃ x ∈ a.adds, f = .holding x

def perform (s : State) : Operation → State
  | .insert f => (s.insertNew f).2
  | .apply a => s.apply a

def run (s : State) (operations : List Operation) : State := operations.foldl perform s

/-- The fact is an atom that holds at first, or some operation puts it in. -/
def PutIn (atoms : List Atom) (operations : List Operation) (f : Fact) : Prop :=
  (∃ x ∈ atoms, f = .holding x) ∨ ∃ operation ∈ operations, operation.Puts f

/-- The state consists of these facts. They are listed in ascending order, and inserting one tells
whether it is new and leaves the others as they are. -/
structure Keeps (s : State) (facts : Fact → Prop) : Prop where
  mem_iff : ∀ f, f ∈ s ↔ facts f
  mem_toList_iff : ∀ f, f ∈ s.toList ↔ facts f
  ascending : s.toList.Pairwise Fact.Before
  size_eq : s.size = s.toList.length
  isNew_iff : ∀ f, (s.insertNew f).1 = true ↔ ¬ facts f
  mem_insertNew_iff : ∀ f g, g ∈ (s.insertNew f).2 ↔ g = f ∨ facts g

variable {s t : State} {f : Fact} {facts : Fact → Prop} {operation : Operation}
  {operations : List Operation} {atoms : List Atom}

theorem pairwise_before_toList (s : State) : s.toList.Pairwise Fact.Before :=
  Std.ExtTreeSet.ordered_toList.imp Fact.compare_eq_lt_iff.mp

theorem keeps_of_mem_iff (hfacts : ∀ f, f ∈ s ↔ facts f) : s.Keeps facts where
  mem_iff := hfacts
  mem_toList_iff f := mem_toList.trans (hfacts f)
  ascending := pairwise_before_toList s
  size_eq := Std.ExtTreeSet.length_toList.symm
  isNew_iff f := by
    rw [insertNew_eq, decide_eq_true_iff, hfacts]
  mem_insertNew_iff f g := by
    rw [insertNew_eq, mem_insert, hfacts]

theorem isSubset_iff : s.isSubset t = true ↔ ∀ f, f ∈ s → f ∈ t := by
  simp only [isSubset, List.all_eq_true, mem_toList, decide_eq_true_eq]

/-! ### Runs -/

theorem mem_effects_iff {a : GroundAction} :
    f ∈ effects a ↔ (Operation.apply a).Puts f := by
  simp only [effects, Operation.Puts, List.mem_append, List.mem_map, eq_comm]

theorem mem_perform : f ∈ s.perform operation ↔ operation.Puts f ∨ f ∈ s := by
  cases operation with
  | insert g =>
    show f ∈ (s.insertNew g).2 ↔ f = g ∨ f ∈ s
    rw [insertNew_eq, mem_insert]
  | apply a =>
    show f ∈ s.apply a ↔ _
    rw [mem_apply, mem_effects_iff]

theorem mem_run :
    f ∈ s.run operations ↔ (∃ operation ∈ operations, operation.Puts f) ∨ f ∈ s := by
  induction operations generalizing s with
  | nil => simp [run]
  | cons operation operations ih =>
    show f ∈ (s.perform operation).run operations ↔ _
    rw [ih, mem_perform, List.exists_mem_cons_iff, or_left_comm, or_assoc]

theorem mem_run_ofAtoms : f ∈ (ofAtoms atoms).run operations ↔ PutIn atoms operations f := by
  rw [mem_run, mem_ofAtoms, or_comm]
  rfl

/-- A state that operations lead to has exactly the facts that were put in, in ascending order. Two
such states are equal if the same facts were put in, and one is part of another if its facts were
put into that, whatever the operations were and their order. The order is that of the comparison by
which states are sorted; of two different facts exactly one comes before the other. -/
theorem run_keeps_putIn (atoms : List Atom) (operations : List Operation) :
    ((ofAtoms atoms).run operations).Keeps (PutIn atoms operations) ∧
    (∀ atoms' operations', (ofAtoms atoms).run operations = (ofAtoms atoms').run operations' ↔
      ∀ f, PutIn atoms operations f ↔ PutIn atoms' operations' f) ∧
    (∀ atoms' operations',
      ((ofAtoms atoms).run operations).isSubset ((ofAtoms atoms').run operations') = true ↔
        ∀ f, PutIn atoms operations f → PutIn atoms' operations' f) ∧
    IsStrictTotalOrder Fact Fact.Before ∧
    ∀ f g : Fact, (compare f g = .lt ↔ f.Before g) ∧ (compare f g = .eq ↔ f = g) := by
  refine ⟨keeps_of_mem_iff fun f => mem_run_ofAtoms, fun atoms' operations' => ?_,
    fun atoms' operations' => ?_, Fact.isStrictTotalOrder_before, fun f g => ⟨?_, ?_⟩⟩
  · rw [State.ext_iff]
    simp only [mem_run_ofAtoms]
  · rw [isSubset_iff]
    simp only [mem_run_ofAtoms]
  · exact Fact.compare_eq_lt_iff
  · exact Std.LawfulEqCmp.compare_eq_iff_eq

end StripsReach.State
