import Std.Data.ExtTreeMap
import StripsReach.Mutex.Timeline
import StripsReach.State

/-!
# Mutual exclusion

What cannot go together at a level of a planning graph, by three relations: two actions of which
one deletes what the other adds, or an action that deletes what holds at the level; two actions
of which one deletes what the other needs; and an atom that holds at the level although it was
deleted. Actions are compared with all that were enabled at any level so far.
-/

namespace StripsReach

/-- Two actions by number, the smaller one first, so that either order gives the same pair. -/
structure ActionPair where
  first : Nat
  second : Nat
  first_le_second : first ≤ second := by omega
  deriving DecidableEq, Repr

namespace ActionPair

def of (a b : Nat) : ActionPair where
  first := min a b
  second := max a b

/-- By the first action, then by the second. -/
instance : Ord ActionPair where
  compare := compareLex (compareOn ActionPair.first) (compareOn ActionPair.second)

instance : Std.TransOrd ActionPair :=
  inferInstanceAs
    (Std.TransCmp (compareLex (compareOn ActionPair.first) (compareOn ActionPair.second)))

instance : Std.LawfulEqOrd ActionPair where
  eq_of_compare {p q} h := by
    have h : (compareLex (compareOn ActionPair.first) (compareOn ActionPair.second)) p q = .eq := h
    simp only [compareLex_eq_eq, compareOn, Std.LawfulEqCmp.compare_eq_iff_eq] at h
    cases p; cases q; simp_all

end ActionPair

/-- Inconsistent effects. -/
inductive EffectMutex where
  /-- One of the actions deletes an atom that the other adds. -/
  | actions (pair : ActionPair)
  /-- The action deletes an atom that holds at the level. -/
  | actionFact (action : Nat) (atom : Atom)
  deriving DecidableEq, Repr

namespace EffectMutex

/-- The numbers of the actions, after a number that puts pairs of actions first. -/
def numbers : EffectMutex → List Nat
  | actions pair => [0, pair.first, pair.second]
  | actionFact action _ => [1, action]

/-- The atom that holds, if there is one. -/
def atoms : EffectMutex → List Atom
  | actions _ => []
  | actionFact _ atom => [atom]

/-- Pairs of actions first; then by the numbers of the actions, then by the atom. -/
instance : Ord EffectMutex where
  compare := compareLex (compareOn EffectMutex.numbers) (compareOn EffectMutex.atoms)

instance : Std.TransOrd EffectMutex :=
  inferInstanceAs
    (Std.TransCmp (compareLex (compareOn EffectMutex.numbers) (compareOn EffectMutex.atoms)))

instance : Std.LawfulEqOrd EffectMutex where
  eq_of_compare {m n} h := by
    replace h : (compareLex (compareOn EffectMutex.numbers) (compareOn EffectMutex.atoms)) m n
        = .eq := h
    simp only [compareLex_eq_eq, compareOn, Std.LawfulEqCmp.compare_eq_iff_eq] at h
    obtain ⟨hn, ha⟩ := h
    rcases m with ⟨⟨a, b, hab⟩⟩ | ⟨a, x⟩ <;> rcases n with ⟨⟨c, d, hcd⟩⟩ | ⟨c, y⟩ <;>
      simp_all [numbers, atoms]

end EffectMutex

/-- For each atom the numbers of actions that have it in one of their lists, in the order in which
the actions came. -/
abbrev ActionIndex := Std.ExtTreeMap Atom (List Nat)

namespace ActionIndex

def idsOf (index : ActionIndex) (x : Atom) : List Nat := (index[x]?).getD []

def push (id : Nat) (index : ActionIndex) (x : Atom) : ActionIndex :=
  index.alter x fun ids => some (ids.getD [] ++ [id])

end ActionIndex

/-- The actions enabled so far, in the order in which they first were, with their numbers and an
index of what they add and one of what they need, and the three relations. An atom in conflict
stands for its two facts. -/
structure MutexHistory where
  actions : List NumberedAction
  seen : Std.ExtTreeSet Nat
  adders : ActionIndex
  requirers : ActionIndex
  effects : Timeline EffectMutex
  interference : Timeline ActionPair
  support : Timeline Atom

namespace MutexHistory

def empty : MutexHistory := ⟨[], ∅, ∅, ∅, .empty, .empty, .empty⟩

def ids (m : MutexHistory) : List Nat := m.actions.map NumberedAction.id

/-- The history with one more action, unless its number is among those seen. -/
def join (m : MutexHistory) (a : NumberedAction) : MutexHistory :=
  if a.id ∈ m.seen then m
  else
    { m with
      actions := m.actions ++ [a]
      seen := m.seen.insert a.id
      adders := a.action.adds.foldl (ActionIndex.push a.id) m.adders
      requirers := a.action.needs.foldl (ActionIndex.push a.id) m.requirers }

/-- The pairs of an action that deletes an atom with the other actions that `index` lists for the
atom. -/
def pairsOver (index : ActionIndex) (a : NumberedAction) (x : Atom) : List ActionPair :=
  ((index.idsOf x).filter (a.id ≠ ·)).map (.of a.id)

/-- The inconsistent effects among the actions enabled so far, at a level with `state`. -/
def effectMutexes (m : MutexHistory) (state : State) : List EffectMutex :=
  m.actions.flatMap fun a => a.action.deletes.flatMap fun x =>
    (pairsOver m.adders a x).map .actions ++
      if state.holds x then [.actionFact a.id x] else []

def interferingPairs (m : MutexHistory) : List ActionPair :=
  m.actions.flatMap fun a => a.action.deletes.flatMap (pairsOver m.requirers a)

/-- The history after `level`, whose state is `state` and at which `layer` is enabled. -/
def analyse (m : MutexHistory) (level : Nat) (state : State) (layer : List NumberedAction) :
    MutexHistory :=
  let joined := layer.foldl join m
  { joined with
    effects := joined.effects.recordAll level (joined.effectMutexes state)
    interference := joined.interference.recordAll level joined.interferingPairs
    support := joined.support.recordAll level state.conflicts }

end MutexHistory

end StripsReach
