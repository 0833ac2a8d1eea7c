import StripsReach.Proofs.Graph.Derivation

/-!
# Atoms by the depth of their derivations

What is derived within a depth grows with the depth, one action at a time. What a derivation costs
plays no part here.
-/

namespace StripsReach

/-- That the atom has a derivation. -/
def Derivable (actions : List GroundAction) (init : List Atom) (x : Atom) : Prop :=
  ∃ extent, Derivation actions init x extent

/-- That the atom has a derivation no deeper than `n`. -/
def DerivableWithin (actions : List GroundAction) (init : List Atom) (n : Nat) (x : Atom) : Prop :=
  ∃ extent, Derivation actions init x extent ∧ extent.depth ≤ n

/-- That all that the action needs has derivations no deeper than `n`. -/
def EnabledWithin (actions : List GroundAction) (init : List Atom) (n : Nat) (a : GroundAction) :
    Prop :=
  ∀ x ∈ a.needs, DerivableWithin actions init n x

variable {actions : List GroundAction} {init : List Atom}

theorem costsWithin_nonempty_iff {n : Nat} {x : Atom} :
    (costsWithin actions init n x).Nonempty ↔ DerivableWithin actions init n x := by
  constructor
  · rintro ⟨cost, depth, hdepth, h⟩
    exact ⟨⟨cost, depth⟩, h, hdepth⟩
  · rintro ⟨⟨cost, depth⟩, h, hdepth⟩
    exact ⟨cost, depth, hdepth, h⟩

theorem derivationCosts_nonempty_iff {x : Atom} :
    (derivationCosts actions init x).Nonempty ↔ Derivable actions init x := by
  constructor
  · rintro ⟨cost, depth, h⟩
    exact ⟨⟨cost, depth⟩, h⟩
  · rintro ⟨⟨cost, depth⟩, h⟩
    exact ⟨cost, depth, h⟩

theorem sumsOf_nonempty_iff {costs : Atom → Set Nat} {atoms : List Atom} :
    (sumsOf costs atoms).Nonempty ↔ ∀ x ∈ atoms, (costs x).Nonempty := by
  simp only [Set.nonempty_iff_ne_empty, ne_eq, sumsOf_eq_empty_iff, not_exists, not_and]

theorem derivable_iff_exists_within {x : Atom} :
    Derivable actions init x ↔ ∃ n, DerivableWithin actions init n x := by
  constructor
  · rintro ⟨extent, h⟩
    exact ⟨extent.depth, extent, h, le_rfl⟩
  · rintro ⟨n, extent, h, -⟩
    exact ⟨extent, h⟩

theorem DerivableWithin.mono {n k : Nat} (hnk : n ≤ k) {x : Atom}
    (h : DerivableWithin actions init n x) : DerivableWithin actions init k x := by
  obtain ⟨extent, hx, hdepth⟩ := h
  exact ⟨extent, hx, hdepth.trans hnk⟩

theorem EnabledWithin.mono {n k : Nat} (hnk : n ≤ k) {a : GroundAction}
    (h : EnabledWithin actions init n a) : EnabledWithin actions init k a :=
  fun x hx => (h x hx).mono hnk

theorem derivableWithin_zero_iff {x : Atom} : DerivableWithin actions init 0 x ↔ x ∈ init := by
  rw [← costsWithin_nonempty_iff, Set.Nonempty]
  simp only [mem_costsWithin_zero, exists_and_left, exists_eq, and_true]

/-- One level deeper there is what an action adds that was enabled before. -/
theorem derivableWithin_succ_iff {n : Nat} {x : Atom} :
    DerivableWithin actions init (n + 1) x ↔
      (∃ a ∈ actions, EnabledWithin actions init n a ∧ x ∈ a.adds) ∨
        DerivableWithin actions init n x := by
  constructor
  · intro h
    obtain ⟨cost, hcost⟩ := costsWithin_nonempty_iff.mpr h
    rcases mem_costsWithin_succ.mp hcost with ⟨hx, -⟩ | ⟨a, ha, hx, sum, hsum, -⟩
    · exact .inr ((derivableWithin_zero_iff.mpr hx).mono (Nat.zero_le n))
    · have hneeds := sumsOf_nonempty_iff.mp ⟨sum, hsum⟩
      exact .inl ⟨a, ha, fun y hy => costsWithin_nonempty_iff.mp (hneeds y hy), hx⟩
  · rintro (⟨a, ha, hneeds, hx⟩ | h)
    · obtain ⟨sum, hsum⟩ := sumsOf_nonempty_iff.mpr fun y hy =>
        costsWithin_nonempty_iff.mpr (hneeds y hy)
      exact costsWithin_nonempty_iff.mp
        ⟨a.cost + sum, mem_costsWithin_succ.mpr (.inr ⟨a, ha, hx, sum, hsum, rfl⟩)⟩
    · exact h.mono (Nat.le_succ n)

end StripsReach
