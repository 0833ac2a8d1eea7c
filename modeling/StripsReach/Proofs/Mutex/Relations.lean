import Mathlib.Data.Set.Basic
import StripsReach.Mutex.History
import StripsReach.Proofs.Mutex.Recording

/-!
# The mutex relations, action against action

The three relations are stated here over a set of enabled actions and a state, by comparing any
two actions. The history never does so: it keeps an index of what the enabled actions add and one
of what they need.
-/

namespace StripsReach

namespace ActionPair

theorem of_comm (a b : Nat) : of a b = of b a := by
  simp only [of, Nat.min_comm, Nat.max_comm]

theorem first_lt_second_of_ne {a b : Nat} (h : a ≠ b) : (of a b).first < (of a b).second := by
  simp only [of]
  omega

end ActionPair

namespace GroundAction

/-- That `a` deletes an atom that `b` adds. -/
def Undoes (a b : GroundAction) : Prop := ∃ x ∈ a.deletes, x ∈ b.adds

/-- That `a` deletes an atom that `b` needs. -/
def Disables (a b : GroundAction) : Prop := ∃ x ∈ a.deletes, x ∈ b.needs

end GroundAction

/-- The pairs of different actions of which one stands in `related` to the other. -/
def pairsWhere (related : GroundAction → GroundAction → Prop) (enabled : List NumberedAction) :
    Set ActionPair :=
  {p | ∃ a ∈ enabled, ∃ b ∈ enabled, a.id ≠ b.id ∧ p = .of a.id b.id ∧
    (related a.action b.action ∨ related b.action a.action)}

/-- Interference among the enabled actions, whatever the state. -/
def Interfering (enabled : List NumberedAction) (_ : State) (p : ActionPair) : Prop :=
  p ∈ pairsWhere GroundAction.Disables enabled

/-- Inconsistent effects among the enabled actions, and of an enabled action with the state. -/
def Inconsistent (enabled : List NumberedAction) (state : State) : EffectMutex → Prop
  | .actions p => p ∈ pairsWhere GroundAction.Undoes enabled
  | .actionFact i x =>
    (∃ a ∈ enabled, a.id = i ∧ x ∈ a.action.deletes) ∧ Fact.holding x ∈ state

/-- Inconsistent support: the atom is in the state, and so is its negation. -/
def Conflicting (_ : List NumberedAction) (state : State) (x : Atom) : Prop :=
  Fact.holding x ∈ state ∧ Fact.deleted x ∈ state

theorem pairsWhere_mono {related : GroundAction → GroundAction → Prop}
    {enabled more : List NumberedAction} (h : enabled ⊆ more) :
    pairsWhere related enabled ⊆ pairsWhere related more := by
  rintro p ⟨a, ha, b, hb, hab⟩
  exact ⟨a, h ha, b, h hb, hab⟩

/-- That an entry keeps its place in the relation when more actions are enabled and the state has
more facts. -/
def Growing {α : Type} (relation : List NumberedAction → State → α → Prop) : Prop :=
  ∀ ⦃enabled more : List NumberedAction⦄ ⦃state next : State⦄ ⦃entry : α⦄, enabled ⊆ more →
    (∀ f ∈ state, f ∈ next) → relation enabled state entry → relation more next entry

theorem growing_interfering : Growing Interfering :=
  fun _ _ _ _ _ hmore _ h => pairsWhere_mono hmore h

theorem growing_inconsistent : Growing Inconsistent := by
  intro enabled more state next entry hmore hnext h
  cases entry with
  | actions p => exact pairsWhere_mono hmore h
  | actionFact i x =>
    obtain ⟨⟨a, ha, hax⟩, hx⟩ := h
    exact ⟨⟨a, hmore ha, hax⟩, hnext _ hx⟩

theorem growing_conflicting : Growing Conflicting :=
  fun _ _ _ _ _ _ hnext h => ⟨hnext _ h.1, hnext _ h.2⟩

/-- It is enough to look at one of the two directions, for all pairs in both orders. -/
theorem mem_pairsWhere {related : GroundAction → GroundAction → Prop}
    {enabled : List NumberedAction} {p : ActionPair} :
    p ∈ pairsWhere related enabled ↔
      ∃ a ∈ enabled, ∃ b ∈ enabled, a.id ≠ b.id ∧ p = .of a.id b.id ∧
        related a.action b.action := by
  constructor
  · rintro ⟨a, ha, b, hb, hne, rfl, hab | hba⟩
    · exact ⟨a, ha, b, hb, hne, rfl, hab⟩
    · exact ⟨b, hb, a, ha, hne.symm, ActionPair.of_comm _ _, hba⟩
  · rintro ⟨a, ha, b, hb, hne, rfl, hab⟩
    exact ⟨a, ha, b, hb, hne, rfl, .inl hab⟩

namespace ActionIndex

theorem mem_idsOf_push {index : ActionIndex} {x y : Atom} {i j : Nat} :
    i ∈ (push j index x).idsOf y ↔ i ∈ index.idsOf y ∨ (i = j ∧ y = x) := by
  rw [idsOf, idsOf, push, Std.ExtTreeMap.getElem?_alter]
  simp only [Std.LawfulEqCmp.compare_eq_iff_eq]
  by_cases hxy : x = y
  · subst hxy
    simp
  · simp [hxy, Ne.symm hxy]

/-- An action listed for each of its atoms, repeated or not. -/
theorem mem_idsOf_foldl_push {index : ActionIndex} {atoms : List Atom} {y : Atom} {i j : Nat} :
    i ∈ (atoms.foldl (push j) index).idsOf y ↔ i ∈ index.idsOf y ∨ (i = j ∧ y ∈ atoms) := by
  induction atoms generalizing index with
  | nil => simp
  | cons x atoms ih =>
    rw [List.foldl_cons, ih, mem_idsOf_push, or_assoc, ← and_or_left, List.mem_cons]

end ActionIndex

end StripsReach
