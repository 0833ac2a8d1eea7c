import Mathlib.Algebra.GroupWithZero.Nat
import Mathlib.Data.List.Forall2
import Mathlib.Data.Set.Insert
import Mathlib.Order.Bounds.Basic
import StripsReach.GroundAction

/-!
# Derivations of atoms

An atom is derived by being initial, or by an action that adds it together with a derivation of
each atom that the action needs. A derivation has a cost and a depth. There may be infinitely many
derivations of an atom, and nothing here asks that they be short or free of repetitions.
-/

namespace StripsReach

/-- What a derivation costs and how deep it is. -/
structure Extent where
  cost : Nat
  depth : Nat

/-- What several derivations cost together, each counted. -/
def totalCost (parts : List Extent) : Nat := (parts.map Extent.cost).sum

/-- The greatest depth of several derivations, zero if there are none. -/
def greatestDepth (parts : List Extent) : Nat := (parts.map Extent.depth).foldr max 0

/-- That the atom has a derivation of the given cost and depth. -/
inductive Derivation (actions : List GroundAction) (init : List Atom) : Atom → Extent → Prop
  | initial {x : Atom} : x ∈ init → Derivation actions init x ⟨0, 0⟩
  | action {a : GroundAction} {x : Atom} {parts : List Extent} : a ∈ actions → x ∈ a.adds →
      List.Forall₂ (fun y part => Derivation actions init y part) a.needs parts →
      Derivation actions init x ⟨a.cost + totalCost parts, 1 + greatestDepth parts⟩

/-- The costs of the derivations of an atom that are not deeper than `n`. -/
def costsWithin (actions : List GroundAction) (init : List Atom) (n : Nat) (x : Atom) : Set Nat :=
  {cost | ∃ depth ≤ n, Derivation actions init x ⟨cost, depth⟩}

/-- The costs of all derivations of an atom. -/
def derivationCosts (actions : List GroundAction) (init : List Atom) (x : Atom) : Set Nat :=
  {cost | ∃ depth, Derivation actions init x ⟨cost, depth⟩}

/-- The sums of one number for each atom, where `costs` tells which numbers an atom has. -/
def sumsOf (costs : Atom → Set Nat) : List Atom → Set Nat
  | [] => {0}
  | x :: xs => {sum | ∃ cost ∈ costs x, ∃ rest ∈ sumsOf costs xs, sum = cost + rest}

section Sums

variable {costs : Atom → Set Nat} {atoms : List Atom}

theorem sumsOf_eq_empty_iff : sumsOf costs atoms = ∅ ↔ ∃ x ∈ atoms, costs x = ∅ := by
  induction atoms with
  | nil => simp [sumsOf]
  | cons x atoms ih =>
    rw [List.exists_mem_cons_iff, ← ih]
    constructor
    · intro hempty
      by_contra hnone
      rw [not_or, ← ne_eq, ← ne_eq, ← Set.nonempty_iff_ne_empty,
        ← Set.nonempty_iff_ne_empty] at hnone
      obtain ⟨⟨cost, hcost⟩, ⟨rest, hrest⟩⟩ := hnone
      have hmem : cost + rest ∈ sumsOf costs (x :: atoms) := ⟨cost, hcost, rest, hrest, rfl⟩
      rw [hempty] at hmem
      exact hmem
    · rintro (hempty | hempty) <;> simp [sumsOf, hempty]

/-- Where each atom has a least cost, these add up to the least sum. -/
theorem isLeast_sumsOf {least : Atom → Nat} (h : ∀ x ∈ atoms, IsLeast (costs x) (least x)) :
    IsLeast (sumsOf costs atoms) (atoms.map least).sum := by
  induction atoms with
  | nil => exact isLeast_singleton
  | cons x atoms ih =>
    have hx := h x List.mem_cons_self
    have hrest := ih fun y hy => h y (List.mem_cons_of_mem x hy)
    rw [List.map_cons, List.sum_cons]
    constructor
    · exact ⟨least x, hx.1, _, hrest.1, rfl⟩
    · rintro _ ⟨cost, hcost, rest, hsum, rfl⟩
      exact Nat.add_le_add (hx.2 hcost) (hrest.2 hsum)

end Sums

section Depth

variable {actions : List GroundAction} {init : List Atom}

theorem mem_derivationCosts_iff {x : Atom} {cost : Nat} :
    cost ∈ derivationCosts actions init x ↔ ∃ n, cost ∈ costsWithin actions init n x := by
  constructor
  · rintro ⟨depth, h⟩
    exact ⟨depth, depth, le_rfl, h⟩
  · rintro ⟨n, depth, -, h⟩
    exact ⟨depth, h⟩

theorem greatestDepth_le_iff {parts : List Extent} {n : Nat} :
    greatestDepth parts ≤ n ↔ ∀ part ∈ parts, part.depth ≤ n := by
  induction parts with
  | nil => simp [greatestDepth]
  | cons part parts ih =>
    have hcons : greatestDepth (part :: parts) = max part.depth (greatestDepth parts) := rfl
    rw [hcons, Nat.max_le, ih, List.forall_mem_cons]

/-- One derivation for each atom, none deeper than `n`, gives one cost for each, and the other way
round. -/
theorem exists_parts_iff {n : Nat} {atoms : List Atom} {sum : Nat} :
    (∃ parts, List.Forall₂ (fun y part => Derivation actions init y part) atoms parts ∧
      greatestDepth parts ≤ n ∧ totalCost parts = sum) ↔
    sum ∈ sumsOf (costsWithin actions init n) atoms := by
  induction atoms generalizing sum with
  | nil =>
    simp only [List.forall₂_nil_left_iff, exists_eq_left]
    simp [sumsOf, greatestDepth, totalCost, eq_comm]
  | cons x atoms ih =>
    simp only [List.forall₂_cons_left_iff]
    constructor
    · rintro ⟨_, ⟨⟨cost, depth⟩, parts, hx, hparts, rfl⟩, hdepth, rfl⟩
      rw [greatestDepth_le_iff, List.forall_mem_cons, ← greatestDepth_le_iff] at hdepth
      exact ⟨cost, ⟨depth, hdepth.1, hx⟩, totalCost parts, ih.mp ⟨parts, hparts, hdepth.2, rfl⟩, rfl⟩
    · rintro ⟨cost, ⟨depth, hdepth, hx⟩, rest, hrest, rfl⟩
      obtain ⟨parts, hparts, hparts_depth, rfl⟩ := ih.mpr hrest
      refine ⟨⟨cost, depth⟩ :: parts, ⟨_, parts, hx, hparts, rfl⟩, ?_, rfl⟩
      rw [greatestDepth_le_iff, List.forall_mem_cons, ← greatestDepth_le_iff]
      exact ⟨hdepth, hparts_depth⟩

theorem mem_costsWithin_zero {x : Atom} {cost : Nat} :
    cost ∈ costsWithin actions init 0 x ↔ x ∈ init ∧ cost = 0 := by
  constructor
  · rintro ⟨depth, hdepth, h⟩
    cases h with
    | initial hx => exact ⟨hx, rfl⟩
    | action => omega
  · rintro ⟨hx, rfl⟩
    exact ⟨0, le_rfl, .initial hx⟩

theorem mem_costsWithin_succ {n : Nat} {x : Atom} {cost : Nat} :
    cost ∈ costsWithin actions init (n + 1) x ↔ (x ∈ init ∧ cost = 0) ∨
      ∃ a ∈ actions, x ∈ a.adds ∧ ∃ sum ∈ sumsOf (costsWithin actions init n) a.needs,
        cost = a.cost + sum := by
  constructor
  · rintro ⟨depth, hdepth, h⟩
    cases h with
    | initial hx => exact .inl ⟨hx, rfl⟩
    | @action a _ parts ha hx hparts =>
      refine .inr ⟨a, ha, hx, totalCost parts, exists_parts_iff.mp ⟨parts, hparts, ?_, rfl⟩, rfl⟩
      omega
  · rintro (⟨hx, rfl⟩ | ⟨a, ha, hx, sum, hsum, rfl⟩)
    · exact ⟨0, Nat.zero_le _, .initial hx⟩
    · obtain ⟨parts, hparts, hdepth, rfl⟩ := exists_parts_iff.mpr hsum
      exact ⟨1 + greatestDepth parts, by omega, .action ha hx hparts⟩

theorem costsWithin_mono {n k : Nat} (hnk : n ≤ k) (x : Atom) :
    costsWithin actions init n x ⊆ costsWithin actions init k x := by
  rintro cost ⟨depth, hdepth, h⟩
  exact ⟨depth, hdepth.trans hnk, h⟩

end Depth

end StripsReach
