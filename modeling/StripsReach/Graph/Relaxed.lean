import Std.Data.ExtTreeMap
import StripsReach.Descent
import StripsReach.GroundAction
import StripsReach.Graph.Termination

/-!
# Relaxed planning graphs

With deletions left out, every atom that is reached has a cost: nothing for an initial atom, and
otherwise that of the cheapest action adding it, where an action costs its own cost and that of
all it needs. Costs are added up within bounds. A graph of costs starts with the initial atoms
and grows as long as an atom is reached or a cost falls.

It ends because every level before the last one lowers the sum of the costs of all atoms that
actions add, where an atom that is not reached counts for more than any cost.
-/

namespace StripsReach

/-- The largest cost, which is the largest number of 32 bits. -/
def maxCost : Nat := 4294967295

/-- The sum of two costs, or the largest cost if the sum is more. -/
def addCost (a b : Nat) : Nat := min maxCost (a + b)

abbrev Costs := Std.ExtTreeMap Atom Nat

namespace Costs

def ofAtoms (atoms : List Atom) : Costs := atoms.foldl (fun costs a => costs.insert a 0) ∅

/-- The cost of all atoms together, if all are reached. -/
def sum? (costs : Costs) (atoms : List Atom) : Option Nat :=
  atoms.foldlM (fun total a => (costs[a]?).map (addCost total)) 0

/-- The costs with `a` at `cost`, unless it is reached as cheaply. -/
def offer (cost : Nat) (costs : Costs) (a : Atom) : Costs :=
  costs.alter a fun
    | none => some cost
    | some known => some (min known cost)

/-- The actions that all they need is reached of, with what they cost. -/
def enabled (costs : Costs) (actions : List NumberedAction) : List (NumberedAction × Nat) :=
  actions.filterMap fun a =>
    (costs.sum? a.action.needs).map fun cost => (a, addCost a.action.cost cost)

def offerAll (costs : Costs) (actions : List (NumberedAction × Nat)) : Costs :=
  actions.foldl (fun costs a => a.1.action.adds.foldl (offer a.2) costs) costs

def successor (actions : List NumberedAction) (costs : Costs) : Costs :=
  costs.offerAll (costs.enabled actions)

/-- What an atom counts for: its cost, or more than any cost if it is not reached. -/
def weight (costs : Costs) (a : Atom) : Nat := (costs[a]?).getD (maxCost + 1)

def targets (actions : List NumberedAction) : List Atom := actions.flatMap (·.action.adds)

def total (actions : List NumberedAction) (costs : Costs) : Nat :=
  totalWeight costs.weight (targets actions)

/-- That costs have changed in atoms of `atoms` only, where they have fallen. -/
def Improved (atoms : List Atom) (old new : Costs) : Prop :=
  ∀ a, new[a]? = old[a]? ∨ (a ∈ atoms ∧ new.weight a < old.weight a)

theorem Improved.refl (atoms : List Atom) (costs : Costs) : Improved atoms costs costs :=
  fun _ => .inl rfl

theorem Improved.trans {atoms : List Atom} {a b c : Costs} (hab : Improved atoms a b)
    (hbc : Improved atoms b c) : Improved atoms a c := by
  intro x
  rcases hab x with h₁ | ⟨hx, h₁⟩ <;> rcases hbc x with h₂ | ⟨hx', h₂⟩
  · exact .inl (h₂.trans h₁)
  · exact .inr ⟨hx', by simpa only [weight, h₁] using h₂⟩
  · exact .inr ⟨hx, by simpa only [weight, h₂] using h₁⟩
  · exact .inr ⟨hx, Nat.lt_trans h₂ h₁⟩

theorem getElem?_offer (cost : Nat) (costs : Costs) (a b : Atom) :
    (offer cost costs a)[b]? =
      if a = b then some (min ((costs[a]?).getD cost) cost) else costs[b]? := by
  rw [offer, Std.ExtTreeMap.getElem?_alter]
  simp only [Std.LawfulEqCmp.compare_eq_iff_eq]
  split
  · cases costs[a]? <;> simp
  · rfl

theorem improved_offer {atoms : List Atom} {cost : Nat} (hcost : cost ≤ maxCost) (costs : Costs)
    {a : Atom} (ha : a ∈ atoms) : Improved atoms costs (offer cost costs a) := by
  intro b
  rw [weight, getElem?_offer, weight]
  by_cases hab : a = b
  · subst hab
    rw [if_pos rfl]
    cases hc : costs[a]? with
    | none =>
      refine .inr ⟨ha, ?_⟩
      simp
      omega
    | some known =>
      by_cases hk : known ≤ cost
      · exact .inl (by simp [Nat.min_eq_left hk])
      · exact .inr ⟨ha, by simp; omega⟩
  · exact .inl (if_neg hab)

theorem improved_foldl_offer {atoms : List Atom} {cost : Nat} (hcost : cost ≤ maxCost)
    (costs : Costs) {added : List Atom} (hadded : ∀ a ∈ added, a ∈ atoms) :
    Improved atoms costs (added.foldl (offer cost) costs) := by
  induction added generalizing costs with
  | nil => exact .refl _ _
  | cons a added ih =>
    refine (improved_offer hcost costs (hadded a List.mem_cons_self)).trans ?_
    exact ih _ fun b hb => hadded b (List.mem_cons_of_mem _ hb)

theorem improved_offerAll {atoms : List Atom} (costs : Costs)
    {actions : List (NumberedAction × Nat)} (hcost : ∀ a ∈ actions, a.2 ≤ maxCost)
    (hadds : ∀ a ∈ actions, ∀ x ∈ a.1.action.adds, x ∈ atoms) :
    Improved atoms costs (costs.offerAll actions) := by
  induction actions generalizing costs with
  | nil => exact .refl _ _
  | cons a actions ih =>
    refine (improved_foldl_offer (hcost a List.mem_cons_self) costs
      (hadds a List.mem_cons_self)).trans ?_
    exact ih _ (fun b hb => hcost b (List.mem_cons_of_mem _ hb))
      (fun b hb => hadds b (List.mem_cons_of_mem _ hb))

theorem improved_successor (actions : List NumberedAction) (costs : Costs) :
    Improved (targets actions) costs (successor actions costs) := by
  refine improved_offerAll costs ?_ ?_ <;> intro a ha <;>
    obtain ⟨b, hb, hab⟩ := List.mem_filterMap.1 ha <;>
    obtain ⟨cost, -, rfl⟩ := Option.map_eq_some_iff.1 hab
  · exact Nat.min_le_left _ _
  · exact fun x hx => List.mem_flatMap.2 ⟨b, hb, hx⟩

theorem total_successor_lt {actions : List NumberedAction} {costs : Costs}
    (h : successor actions costs ≠ costs) :
    total actions (successor actions costs) < total actions costs := by
  have himproved := improved_successor actions costs
  have hfall : ∃ a ∈ targets actions, (successor actions costs).weight a < costs.weight a := by
    refine Classical.byContradiction fun hno => h (Std.ExtTreeMap.ext_getElem? fun a => ?_)
    exact (himproved a).resolve_right fun ha => hno ⟨a, ha⟩
  obtain ⟨a, ha, hlt⟩ := hfall
  refine totalWeight_lt (fun b _ => ?_) ha hlt
  rcases himproved b with hb | ⟨-, hb⟩
  · exact Nat.le_of_eq (by rw [weight, weight, hb])
  · exact Nat.le_of_lt hb

end Costs

/-- The costs at a level, and the actions enabled at the level before. -/
structure RelaxedLayer where
  level : Nat
  costs : Costs
  actions : List Nat

/-- The levels of a graph of costs and why there are no more. -/
structure RelaxedGraph where
  layers : List RelaxedLayer
  termination : Termination

namespace RelaxedGraph

/-- The graph from `level` on, where the level has `costs` and comes after the actions
`applied`. -/
def grow (actions : List NumberedAction) (level : Nat) (costs : Costs) (applied : List Nat) :
    RelaxedGraph :=
  let layer : RelaxedLayer := ⟨level, costs, applied⟩
  let enabled := costs.enabled actions
  let next := Costs.successor actions costs
  if enabled.isEmpty then ⟨[layer], ⟨.deadEnd, level⟩⟩
  else if _h : next = costs then ⟨[layer], ⟨.fixpoint, level⟩⟩
  else
    let rest := grow actions (level + 1) next (enabled.map fun a => a.1.id)
    { rest with layers := layer :: rest.layers }
termination_by Costs.total actions costs
decreasing_by exact Costs.total_successor_lt _h

def build (actions : List GroundAction) (init : List Atom) : RelaxedGraph :=
  grow (NumberedAction.ofList actions) 0 (Costs.ofAtoms init) []

def finalCosts (g : RelaxedGraph) : Costs := (g.layers.getLast?.map RelaxedLayer.costs).getD ∅

/-- The actions that a level enables, none for the last level. -/
def enabledAt (g : RelaxedGraph) (level : Nat) : List Nat :=
  (g.layers[level + 1]?.map RelaxedLayer.actions).getD []

/-- The cost of the atom, if it is reached. -/
def cost? (g : RelaxedGraph) (a : Atom) : Option Nat := g.finalCosts[a]?

def goalLevel (g : RelaxedGraph) (goals : List Atom) : Option Nat :=
  (g.layers.find? fun layer => goals.all layer.costs.contains).map RelaxedLayer.level

/-- The cost of all goals together, if all are reached. -/
def goalValue (g : RelaxedGraph) (goals : List Atom) : Option Nat := g.finalCosts.sum? goals

def events (g : RelaxedGraph) : List Event :=
  ((g.layers.zip g.layers.tail).map fun (layer, next) =>
    ⟨.debug, "relaxed level",
      [("level", .number layer.level), ("enabled", .number next.actions.length),
        ("atoms", .number next.costs.size)]⟩) ++
    [⟨.info, "relaxed planning graph built",
      [("termination", .text g.termination.kind.words), ("level", .number g.termination.level)]⟩]

end RelaxedGraph

end StripsReach
