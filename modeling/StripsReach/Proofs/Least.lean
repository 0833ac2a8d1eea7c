import Mathlib.Data.Nat.Find
import Mathlib.Data.Set.Operations
import Mathlib.Order.Bounds.Basic

/-!
# Least numbers

A set of numbers that has a member has a least one. An optional number reads off a set if it is
the least member, and missing if there is none.
-/

namespace StripsReach

theorem exists_isLeast {S : Set Nat} {n : Nat} (hn : n ∈ S) : ∃ k, IsLeast S k := by
  classical
  have hex : ∃ k, k ∈ S := ⟨n, hn⟩
  exact ⟨Nat.find hex, Nat.find_spec hex, fun _ hk => Nat.find_min' hex hk⟩

/-- A part that goes as low as the whole has the same least member. -/
theorem isLeast_iff_of_subset {A B : Set Nat} (hAB : A ⊆ B) (hBA : ∀ b ∈ B, ∃ a ∈ A, a ≤ b)
    {v : Nat} : IsLeast A v ↔ IsLeast B v := by
  constructor
  · rintro ⟨hv, hlow⟩
    refine ⟨hAB hv, fun b hb => ?_⟩
    obtain ⟨a, ha, hab⟩ := hBA b hb
    exact (hlow ha).trans hab
  · rintro ⟨hv, hlow⟩
    obtain ⟨a, ha, hav⟩ := hBA v hv
    obtain rfl := Nat.le_antisymm hav (hlow (hAB ha))
    exact ⟨ha, fun b hb => hlow (hAB hb)⟩

/-- That the number is the least member of the set, and missing iff the set is empty. -/
def LeastOf (number : Option Nat) (S : Set Nat) : Prop :=
  ∀ v, number = some v ↔ IsLeast S v

namespace LeastOf

variable {number : Option Nat} {S T : Set Nat}

theorem mem (h : LeastOf number S) {v : Nat} (hv : number = some v) : v ∈ S :=
  ((h v).mp hv).1

theorem exists_le (h : LeastOf number S) {n : Nat} (hn : n ∈ S) : ∃ v, number = some v ∧ v ≤ n := by
  obtain ⟨v, hv⟩ := exists_isLeast hn
  exact ⟨v, (h v).mpr hv, hv.2 hn⟩

theorem isSome_iff (h : LeastOf number S) : number.isSome = true ↔ S.Nonempty := by
  rw [Option.isSome_iff_exists]
  constructor
  · rintro ⟨v, hv⟩
    exact ⟨v, h.mem hv⟩
  · rintro ⟨n, hn⟩
    obtain ⟨v, hv, -⟩ := h.exists_le hn
    exact ⟨v, hv⟩

theorem eq_none_iff (h : LeastOf number S) : number = none ↔ S = ∅ := by
  rw [← Option.not_isSome_iff_eq_none, h.isSome_iff, Set.not_nonempty_iff_eq_empty]

/-- Two numbers read off one set are the same. -/
theorem unique {other : Option Nat} (h : LeastOf number S) (hother : LeastOf other S) :
    number = other :=
  Option.ext fun v => (h v).trans (hother v).symm

/-- A larger set has a least member that is no greater. -/
theorem exists_le_of_subset {other : Option Nat} (h : LeastOf number S) (hother : LeastOf other T)
    (hST : S ⊆ T) {v : Nat} (hv : number = some v) : ∃ w ≤ v, other = some w := by
  obtain ⟨w, hw, hle⟩ := hother.exists_le (hST (h.mem hv))
  exact ⟨w, hle, hw⟩

theorem none_empty : LeastOf none ∅ := by
  intro v
  constructor
  · intro hv
    cases hv
  · intro hv
    exact absurd hv.1 (Set.notMem_empty v)

/-- The set may be replaced by one that it is part of and that goes no lower. -/
theorem of_subset (h : LeastOf number S) (hST : S ⊆ T) (hTS : ∀ t ∈ T, ∃ s ∈ S, s ≤ t) :
    LeastOf number T :=
  fun v => (h v).trans (isLeast_iff_of_subset hST hTS)

theorem of_some (number : Option Nat) : LeastOf number {v | number = some v} := by
  intro v
  constructor
  · intro hv
    refine ⟨hv, ?_⟩
    intro w hw
    exact (Option.some.inj (hv.symm.trans hw)).le
  · exact fun hv => hv.1

theorem of_some_union (number : Option Nat) (hT : ∀ n, n ∉ T) :
    LeastOf number ({v | number = some v} ∪ T) := by
  rw [Set.eq_empty_iff_forall_notMem.mpr hT, Set.union_empty]
  exact of_some number

/-- Where one number is the least of a set, it may stand for the set in a larger one. -/
theorem union {other : Option Nat} (h : LeastOf number S)
    (hother : LeastOf other ({v | number = some v} ∪ T)) : LeastOf other (S ∪ T) := by
  refine hother.of_subset ?_ ?_
  · exact Set.union_subset_union_left T fun v hv => h.mem hv
  · rintro n (hn | hn)
    · obtain ⟨v, hv, hle⟩ := h.exists_le hn
      exact ⟨v, .inl hv, hle⟩
    · exact ⟨n, .inr hn, le_rfl⟩

theorem some_singleton (n : Nat) : LeastOf (some n) {n} := by
  intro v
  rw [Option.some.injEq]
  constructor
  · rintro rfl
    exact isLeast_singleton
  · intro h
    exact h.1.symm

end LeastOf

end StripsReach
