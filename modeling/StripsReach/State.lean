import Std.Data.ExtTreeSet
import StripsReach.GroundAction

/-!
# States

A state of a planning graph is a finite set of facts in ascending order. An atom holds if its
positive fact is in the set. Deleting an atom takes nothing away: it adds the negative fact, so
states only grow. Two states are equal if they have the same facts.
-/

namespace StripsReach

/-- The facts of one level. -/
structure State where
  facts : Std.ExtTreeSet Fact
  deriving DecidableEq

namespace State

/-- The state without facts. -/
def empty : State := ⟨∅⟩

instance : EmptyCollection State := ⟨empty⟩

instance : Inhabited State := ⟨empty⟩

instance : Membership Fact State := ⟨fun s f => f ∈ s.facts⟩

instance (f : Fact) (s : State) : Decidable (f ∈ s) :=
  inferInstanceAs (Decidable (f ∈ s.facts))

/-- The facts in ascending order. -/
def toList (s : State) : List Fact := s.facts.toList

def size (s : State) : Nat := s.facts.size

def insert (s : State) (f : Fact) : State := ⟨s.facts.insert f⟩

/-- Whether `f` is new to the state, and the state with it. One search answers both. -/
def insertNew (s : State) (f : Fact) : Bool × State :=
  let (found, facts) := s.facts.containsThenInsert f
  (!found, ⟨facts⟩)

def insertAll (s : State) (facts : List Fact) : State := facts.foldl insert s

/-- The state in which exactly `atoms` hold and nothing was deleted. -/
def ofAtoms (atoms : List Atom) : State := empty.insertAll (atoms.map Fact.holding)

def holds (s : State) (a : Atom) : Bool := Fact.holding a ∈ s

/-- Whether all that the action needs holds. What has been deleted does not matter. -/
def enables (s : State) (a : GroundAction) : Bool := a.needs.all s.holds

def isSubset (s t : State) : Bool := s.toList.all (· ∈ t)

def effects (a : GroundAction) : List Fact :=
  a.deletes.map Fact.deleted ++ a.adds.map Fact.holding

def apply (s : State) (a : GroundAction) : State := s.insertAll (effects a)

/-- The atoms that hold although they have been deleted. -/
def conflicts (s : State) : List Atom :=
  (s.toList.filter fun f => f.polarity = .positive && Fact.deleted f.atom ∈ s).map Fact.atom

def text (s : State) : String := String.join (s.toList.map fun f => f.text ++ "\n")

@[simp]
theorem holding_mem_effects {x : Atom} {a : GroundAction} :
    Fact.holding x ∈ effects a ↔ x ∈ a.adds := by
  simp [effects, Fact.holding, Fact.deleted]

@[simp]
theorem deleted_mem_effects {x : Atom} {a : GroundAction} :
    Fact.deleted x ∈ effects a ↔ x ∈ a.deletes := by
  simp [effects, Fact.holding, Fact.deleted]

@[simp]
theorem mem_insert {f g : Fact} {s : State} : f ∈ s.insert g ↔ f = g ∨ f ∈ s := by
  show f ∈ s.facts.insert g ↔ f = g ∨ f ∈ s.facts
  rw [Std.ExtTreeSet.mem_insert, Std.LawfulEqCmp.compare_eq_iff_eq, eq_comm]

theorem insertNew_eq (s : State) (f : Fact) : s.insertNew f = (decide (f ∉ s), s.insert f) := by
  have hfound : (s.facts.containsThenInsert f).1 = decide (f ∈ s) := by
    rw [Std.ExtTreeSet.containsThenInsert_fst, Bool.eq_iff_iff, Std.ExtTreeSet.contains_iff_mem,
      decide_eq_true_iff]
    rfl
  have hfacts : (s.facts.containsThenInsert f).2 = s.facts.insert f :=
    Std.ExtTreeSet.containsThenInsert_snd
  show (!(s.facts.containsThenInsert f).1, State.mk (s.facts.containsThenInsert f).2) = _
  rw [hfound, hfacts, decide_not]
  rfl

@[simp]
theorem mem_insertAll {f : Fact} {s : State} {facts : List Fact} :
    f ∈ s.insertAll facts ↔ f ∈ facts ∨ f ∈ s := by
  induction facts generalizing s with
  | nil => simp [insertAll]
  | cons g facts ih =>
    have h : s.insertAll (g :: facts) = (s.insert g).insertAll facts := rfl
    rw [h, ih, mem_insert, List.mem_cons, or_left_comm, or_assoc]

theorem mem_ofAtoms {f : Fact} {atoms : List Atom} :
    f ∈ ofAtoms atoms ↔ ∃ x ∈ atoms, f = .holding x := by
  have hempty : f ∉ empty := Std.ExtTreeSet.not_mem_empty
  rw [ofAtoms, mem_insertAll, List.mem_map]
  simp only [hempty, or_false, eq_comm]

@[simp]
theorem mem_apply {f : Fact} {s : State} {a : GroundAction} :
    f ∈ s.apply a ↔ f ∈ effects a ∨ f ∈ s := mem_insertAll

theorem mem_foldl_apply {f : Fact} {s : State} {actions : List GroundAction} :
    f ∈ actions.foldl apply s ↔ (∃ a ∈ actions, f ∈ effects a) ∨ f ∈ s := by
  induction actions generalizing s with
  | nil => simp
  | cons a actions ih =>
    rw [List.foldl_cons, ih, mem_apply]
    constructor
    · rintro (⟨b, hb, hf⟩ | hf | hf)
      · exact .inl ⟨b, List.mem_cons_of_mem _ hb, hf⟩
      · exact .inl ⟨a, List.mem_cons_self, hf⟩
      · exact .inr hf
    · rintro (⟨b, hb, hf⟩ | hf)
      · rcases List.mem_cons.1 hb with rfl | hb
        · exact .inr (.inl hf)
        · exact .inl ⟨b, hb, hf⟩
      · exact .inr (.inr hf)

theorem holds_iff {s : State} {x : Atom} : s.holds x = true ↔ Fact.holding x ∈ s :=
  decide_eq_true_iff

theorem all_holds_iff {s : State} {atoms : List Atom} :
    atoms.all s.holds = true ↔ ∀ x ∈ atoms, Fact.holding x ∈ s := by
  rw [List.all_eq_true]
  simp only [holds_iff]

theorem enables_iff {s : State} {a : GroundAction} :
    s.enables a = true ↔ ∀ x ∈ a.needs, Fact.holding x ∈ s :=
  all_holds_iff

theorem mem_toList {f : Fact} {s : State} : f ∈ s.toList ↔ f ∈ s := Std.ExtTreeSet.mem_toList

theorem mem_conflicts {state : State} {x : Atom} :
    x ∈ state.conflicts ↔ Fact.holding x ∈ state ∧ Fact.deleted x ∈ state := by
  simp only [conflicts, List.mem_map, List.mem_filter, mem_toList, Bool.and_eq_true,
    decide_eq_true_eq]
  constructor
  · rintro ⟨⟨polarity, atom⟩, ⟨hf, hpos, hdel⟩, rfl⟩
    obtain rfl : polarity = .positive := hpos
    exact ⟨hf, hdel⟩
  · rintro ⟨hf, hdel⟩
    exact ⟨Fact.holding x, ⟨hf, rfl, hdel⟩, rfl⟩

/-- States with the same facts are equal. -/
@[ext]
theorem ext {s t : State} (h : ∀ f, f ∈ s ↔ f ∈ t) : s = t := by
  obtain ⟨s⟩ := s
  obtain ⟨t⟩ := t
  exact congrArg State.mk (Std.ExtTreeSet.ext_mem h)

end State

end StripsReach
