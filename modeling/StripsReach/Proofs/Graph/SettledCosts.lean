import Mathlib.Data.Finset.Card
import Mathlib.Data.Finset.Dedup
import StripsReach.Proofs.Graph.Depth
import StripsReach.Proofs.Least

/-!
# How deep the cheapest derivations are

A cheaper derivation of an atom may be a deeper one. An atom is settled within a depth if no
derivation at all is cheaper than one no deeper than that. The atoms that are settled within a
depth, and not before, need an atom that settles one level earlier, so none settles later than
there are atoms to gain.
-/

namespace StripsReach

/-- That no derivation of the atom is cheaper than the cheapest one no deeper than `n`. -/
def SettledWithin (actions : List GroundAction) (init : List Atom) (n : Nat) (x : Atom) : Prop :=
  ∀ cost ∈ derivationCosts actions init x, ∃ within ∈ costsWithin actions init n x, within ≤ cost

/-- The atoms that some action adds and that are not initial. -/
def gainable (actions : List GroundAction) (init : List Atom) : Finset Atom :=
  (actions.flatMap GroundAction.adds).toFinset.filter (· ∉ init)

variable {actions : List GroundAction} {init : List Atom} {x : Atom}

theorem mem_gainable :
    x ∈ gainable actions init ↔ (∃ a ∈ actions, x ∈ a.adds) ∧ x ∉ init := by
  rw [gainable, Finset.mem_filter, List.mem_toFinset, List.mem_flatMap]

theorem costsWithin_subset_derivationCosts (n : Nat) (x : Atom) :
    costsWithin actions init n x ⊆ derivationCosts actions init x :=
  fun _ hcost => mem_derivationCosts_iff.mpr ⟨n, hcost⟩

theorem SettledWithin.mono {n k : Nat} (hnk : n ≤ k) (h : SettledWithin actions init n x) :
    SettledWithin actions init k x := by
  intro cost hcost
  obtain ⟨within, hwithin, hle⟩ := h cost hcost
  exact ⟨within, costsWithin_mono hnk x hwithin, hle⟩

theorem settledWithin_iff_of_isLeast {n least : Nat}
    (hleast : IsLeast (derivationCosts actions init x) least) :
    SettledWithin actions init n x ↔ least ∈ costsWithin actions init n x := by
  constructor
  · intro h
    obtain ⟨within, hwithin, hle⟩ := h least hleast.1
    have hge := hleast.2 (costsWithin_subset_derivationCosts n x hwithin)
    rwa [Nat.le_antisymm hge hle]
  · intro h cost hcost
    exact ⟨least, h, hleast.2 hcost⟩

theorem exists_settledWithin (x : Atom) : ∃ n, SettledWithin actions init n x := by
  by_cases hx : ∃ cost, cost ∈ derivationCosts actions init x
  · obtain ⟨cost, hcost⟩ := hx
    obtain ⟨least, hleast⟩ := exists_isLeast hcost
    obtain ⟨n, hn⟩ := mem_derivationCosts_iff.mp hleast.1
    exact ⟨n, (settledWithin_iff_of_isLeast hleast).mpr hn⟩
  · exact ⟨0, fun cost hcost => absurd ⟨cost, hcost⟩ hx⟩

/-- An initial atom costs nothing from the start, so what settles later is gained. -/
theorem mem_gainable_of_not_settledWithin_zero (h : ¬ SettledWithin actions init 0 x) :
    x ∈ gainable actions init := by
  have hinit : x ∉ init := by
    intro hx
    exact h fun cost _ => ⟨0, mem_costsWithin_zero.mpr ⟨hx, rfl⟩, Nat.zero_le cost⟩
  have hderived : ∃ cost, cost ∈ derivationCosts actions init x := by
    by_contra hnone
    exact h fun cost hcost => absurd ⟨cost, hcost⟩ hnone
  obtain ⟨cost, depth, hx⟩ := hderived
  cases hx with
  | initial hx => exact absurd hx hinit
  | action ha hx _ => exact mem_gainable.mpr ⟨⟨_, ha, hx⟩, hinit⟩

theorem sumsOf_mono {costs more : Atom → Set Nat} {atoms : List Atom}
    (h : ∀ x ∈ atoms, costs x ⊆ more x) : sumsOf costs atoms ⊆ sumsOf more atoms := by
  induction atoms with
  | nil => exact subset_rfl
  | cons x atoms ih =>
    rintro _ ⟨cost, hcost, rest, hrest, rfl⟩
    have hatoms := ih fun y hy => h y (List.mem_cons_of_mem x hy)
    exact ⟨cost, h x List.mem_cons_self hcost, rest, hatoms hrest, rfl⟩

/-- Of derivations of any depth, finitely many are no deeper than some one. -/
theorem exists_sumsOf_within {atoms : List Atom} {sum : Nat}
    (h : sum ∈ sumsOf (derivationCosts actions init) atoms) :
    ∃ n, sum ∈ sumsOf (costsWithin actions init n) atoms := by
  induction atoms generalizing sum with
  | nil => exact ⟨0, h⟩
  | cons x atoms ih =>
    obtain ⟨cost, hcost, rest, hrest, rfl⟩ := h
    obtain ⟨n, hn⟩ := mem_derivationCosts_iff.mp hcost
    obtain ⟨k, hk⟩ := ih hrest
    refine ⟨max n k, cost, costsWithin_mono (Nat.le_max_left n k) x hn, rest, ?_, rfl⟩
    exact sumsOf_mono (fun y _ => costsWithin_mono (Nat.le_max_right n k) y) hk

/-- An action can always be applied to the cheapest derivations of what it needs. -/
theorem cost_add_mem_derivationCosts {a : GroundAction} (ha : a ∈ actions) (hx : x ∈ a.adds)
    {sum : Nat} (hsum : sum ∈ sumsOf (derivationCosts actions init) a.needs) :
    a.cost + sum ∈ derivationCosts actions init x := by
  obtain ⟨n, hn⟩ := exists_sumsOf_within hsum
  exact costsWithin_subset_derivationCosts (n + 1) x
    (mem_costsWithin_succ.mpr (.inr ⟨a, ha, hx, sum, hn, rfl⟩))

/-- If a sum is as low as one number from each of some larger sets can make it, then all its
parts are the least of these sets. -/
theorem isLeast_parts {costs more : Atom → Set Nat} {atoms : List Atom} {sum : Nat}
    (hsub : ∀ x, costs x ⊆ more x) (hsum : sum ∈ sumsOf costs atoms)
    (hleast : IsLeast (sumsOf more atoms) sum) :
    ∀ x ∈ atoms, ∃ cost ∈ costs x, IsLeast (more x) cost := by
  induction atoms generalizing sum with
  | nil => simp
  | cons x atoms ih =>
    obtain ⟨cost, hcost, rest, hrest, rfl⟩ := hsum
    have hrest' := sumsOf_mono (fun y _ => hsub y) hrest
    have hx : IsLeast (more x) cost := by
      refine ⟨hsub x hcost, fun other hother => ?_⟩
      have hle := hleast.2 ⟨other, hother, rest, hrest', rfl⟩
      omega
    have hatoms : IsLeast (sumsOf more atoms) rest := by
      refine ⟨hrest', fun other hother => ?_⟩
      have hle := hleast.2 ⟨cost, hsub x hcost, other, hother, rfl⟩
      omega
    intro y hy
    rcases List.mem_cons.mp hy with rfl | hy
    · exact ⟨cost, hcost, hx⟩
    · exact ih hrest hatoms y hy

theorem exists_sumsOf_le {costs lower : Atom → Set Nat} {atoms : List Atom}
    (h : ∀ x ∈ atoms, ∀ cost ∈ costs x, ∃ low ∈ lower x, low ≤ cost) {sum : Nat}
    (hsum : sum ∈ sumsOf costs atoms) : ∃ low ∈ sumsOf lower atoms, low ≤ sum := by
  induction atoms generalizing sum with
  | nil => exact ⟨sum, hsum, le_rfl⟩
  | cons x atoms ih =>
    obtain ⟨cost, hcost, rest, hrest, rfl⟩ := hsum
    obtain ⟨low, hlow, hle⟩ := h x List.mem_cons_self cost hcost
    obtain ⟨lows, hlows, hles⟩ := ih (fun y hy => h y (List.mem_cons_of_mem x hy)) hrest
    exact ⟨low + lows, ⟨low, hlow, lows, hlows, rfl⟩, Nat.add_le_add hle hles⟩

section Cheapest

variable {a : GroundAction} {n sum : Nat}

/-- A cheapest derivation has a cheapest one of everything that its last action needs. -/
theorem settledWithin_of_mem_needs (ha : a ∈ actions) (hx : x ∈ a.adds)
    (hsum : sum ∈ sumsOf (costsWithin actions init n) a.needs)
    (hleast : IsLeast (derivationCosts actions init x) (a.cost + sum)) :
    ∀ y ∈ a.needs, SettledWithin actions init n y := by
  have hsub : ∀ y, costsWithin actions init n y ⊆ derivationCosts actions init y :=
    fun y => costsWithin_subset_derivationCosts n y
  have hall : IsLeast (sumsOf (derivationCosts actions init) a.needs) sum := by
    refine ⟨sumsOf_mono (fun y _ => hsub y) hsum, fun other hother => ?_⟩
    have hle := hleast.2 (cost_add_mem_derivationCosts ha hx hother)
    omega
  intro y hy
  obtain ⟨cost, hcost, hy⟩ := isLeast_parts hsub hsum hall y hy
  exact (settledWithin_iff_of_isLeast hy).mpr hcost

/-- Once all that the last action of a cheapest derivation needs is settled, one more level
settles the atom. -/
theorem settledWithin_succ_of_needs (ha : a ∈ actions) (hx : x ∈ a.adds)
    (hsum : sum ∈ sumsOf (derivationCosts actions init) a.needs)
    (hleast : IsLeast (derivationCosts actions init x) (a.cost + sum))
    (hneeds : ∀ y ∈ a.needs, SettledWithin actions init n y) :
    SettledWithin actions init (n + 1) x := by
  intro cost hcost
  obtain ⟨low, hlow, hle⟩ := exists_sumsOf_le hneeds hsum
  have hmin := hleast.2 hcost
  exact ⟨a.cost + low, mem_costsWithin_succ.mpr (.inr ⟨a, ha, hx, low, hlow, rfl⟩), by omega⟩

end Cheapest

/-- An atom that takes a level to settle waits for one that takes one level less. -/
theorem exists_settled_before {n : Nat} (h : SettledWithin actions init (n + 2) x)
    (hnew : ¬ SettledWithin actions init (n + 1) x) :
    ∃ y, SettledWithin actions init (n + 1) y ∧ ¬ SettledWithin actions init n y := by
  obtain ⟨cost, hcost⟩ : ∃ cost, cost ∈ derivationCosts actions init x := by
    by_contra hnone
    exact hnew fun cost hcost => absurd ⟨cost, hcost⟩ hnone
  obtain ⟨least, hleast⟩ := exists_isLeast hcost
  rcases mem_costsWithin_succ.mp ((settledWithin_iff_of_isLeast hleast).mp h) with
    hinit | ⟨a, ha, hx, sum, hsum, rfl⟩
  · refine absurd ((settledWithin_iff_of_isLeast hleast).mpr ?_) hnew
    exact mem_costsWithin_succ.mpr (.inl hinit)
  · by_contra hnone
    have hneeds : ∀ y ∈ a.needs, SettledWithin actions init n y := by
      intro y hy
      by_contra hlate
      exact hnone ⟨y, settledWithin_of_mem_needs ha hx hsum hleast y hy, hlate⟩
    have hany := sumsOf_mono (fun y _ => costsWithin_subset_derivationCosts (n + 1) y) hsum
    exact hnew (settledWithin_succ_of_needs ha hx hany hleast hneeds)

open Classical in
/-- The atoms to gain that are settled within `n`. -/
noncomputable def settledBy (actions : List GroundAction) (init : List Atom) (n : Nat) :
    Finset Atom :=
  (gainable actions init).filter (SettledWithin actions init n)

theorem mem_settledBy {n : Nat} : x ∈ settledBy actions init n ↔
    x ∈ gainable actions init ∧ SettledWithin actions init n x := by
  classical
  exact Finset.mem_filter

theorem settledBy_ssubset {n : Nat} (h : SettledWithin actions init (n + 1) x)
    (hnew : ¬ SettledWithin actions init n x) :
    settledBy actions init n ⊂ settledBy actions init (n + 1) := by
  have hgained : x ∈ gainable actions init :=
    mem_gainable_of_not_settledWithin_zero fun hzero => hnew (hzero.mono (Nat.zero_le n))
  refine Finset.ssubset_iff_of_subset ?_ |>.mpr ⟨x, mem_settledBy.mpr ⟨hgained, h⟩, ?_⟩
  · intro y hy
    obtain ⟨hy, hsettled⟩ := mem_settledBy.mp hy
    exact mem_settledBy.mpr ⟨hy, hsettled.mono (Nat.le_succ n)⟩
  · exact fun hx => hnew (mem_settledBy.mp hx).2

/-- Along with an atom that takes `n + 1` levels there is one for every smaller number of levels.
-/
theorem lt_card_settledBy {n : Nat} (h : SettledWithin actions init (n + 1) x)
    (hnew : ¬ SettledWithin actions init n x) : n < (settledBy actions init (n + 1)).card := by
  induction n generalizing x with
  | zero =>
    have hmore := Finset.card_lt_card (settledBy_ssubset h hnew)
    omega
  | succ n ih =>
    have hmore := Finset.card_lt_card (settledBy_ssubset h hnew)
    obtain ⟨y, hy, hynew⟩ := exists_settled_before h hnew
    have hbefore := ih hy hynew
    omega

/-- Nothing settles later than there are atoms to gain. -/
theorem settledWithin_card_gainable (x : Atom) :
    SettledWithin actions init (gainable actions init).card x := by
  classical
  have hsettles : ∃ n, SettledWithin actions init n x := exists_settledWithin x
  have hfirst := Nat.find_spec hsettles
  refine hfirst.mono ?_
  cases hn : Nat.find hsettles with
  | zero => exact Nat.zero_le _
  | succ n =>
    have hnew : ¬ SettledWithin actions init n x := Nat.find_min hsettles (by omega)
    have hcount := lt_card_settledBy (hn ▸ hfirst) hnew
    have hall : (settledBy actions init (n + 1)).card ≤ (gainable actions init).card :=
      Finset.card_le_card fun y hy => (mem_settledBy.mp hy).1
    omega

end StripsReach
