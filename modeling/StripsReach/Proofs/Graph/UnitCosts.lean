import StripsReach.Proofs.Graph.Agreement

/-!
# Levels and costs of actions that cost something

The first level of goals and their final value measure different things, and may come from
different actions: a cost can still fall long after its atom was reached. What ties them is that
a derivation in which every action costs something is no deeper than it is dear. So the cheapest
derivations of the goals bound the level at which all of them are reached.
-/

namespace StripsReach

variable {actions : List GroundAction} {init : List Atom}

theorem exists_le_of_mem_sumsOf {costs : Atom → Set Nat} {atoms : List Atom} {sum : Nat}
    (hsum : sum ∈ sumsOf costs atoms) : ∀ x ∈ atoms, ∃ cost ∈ costs x, cost ≤ sum := by
  induction atoms generalizing sum with
  | nil => simp
  | cons y atoms ih =>
    obtain ⟨cost, hcost, rest, hrest, rfl⟩ := hsum
    intro x hx
    rcases List.mem_cons.mp hx with rfl | hx
    · exact ⟨cost, hcost, Nat.le_add_right cost rest⟩
    · obtain ⟨other, hother, hle⟩ := ih hrest x hx
      exact ⟨other, hother, by omega⟩

section Positive

variable (hcosts : ∀ a ∈ actions, 1 ≤ a.cost)
include hcosts

/-- What an action needs costs less than what it adds, and is derived one level earlier. -/
theorem derivableWithin_of_mem_costsWithin {n cost : Nat} {x : Atom}
    (h : cost ∈ costsWithin actions init n x) : DerivableWithin actions init cost x := by
  induction n generalizing cost x with
  | zero =>
    obtain ⟨hx, rfl⟩ := mem_costsWithin_zero.mp h
    exact derivableWithin_zero_iff.mpr hx
  | succ n ih =>
    rcases mem_costsWithin_succ.mp h with ⟨hx, rfl⟩ | ⟨a, ha, hx, sum, hsum, rfl⟩
    · exact derivableWithin_zero_iff.mpr hx
    · -- No single need costs more than all of them, and the action adds at least one.
      have henabled : EnabledWithin actions init sum a := by
        intro y hy
        obtain ⟨part, hpart, hle⟩ := exists_le_of_mem_sumsOf hsum y hy
        exact (ih hpart).mono hle
      have hnext : DerivableWithin actions init (sum + 1) x :=
        derivableWithin_succ_iff.mpr (.inl ⟨a, ha, henabled, hx⟩)
      have hcost := hcosts a ha
      exact hnext.mono (by omega)

theorem derivableWithin_of_mem_derivationCosts {cost : Nat} {x : Atom}
    (h : cost ∈ derivationCosts actions init x) : DerivableWithin actions init cost x := by
  obtain ⟨n, hn⟩ := mem_derivationCosts_iff.mp h
  exact derivableWithin_of_mem_costsWithin hcosts hn

/-- All goals are reached within the sum of their costs, so within each sum that is not cut off. -/
theorem exists_goalLevel_le {goals : List Atom} {value : Nat}
    (hvalue : (RelaxedGraph.build actions init).goalValue goals = some value) :
    ∃ level, (RelaxedGraph.build actions init).goalLevel goals = some level ∧
      (value = maxCost ∨ level ≤ value) := by
  obtain ⟨sum, hsum, rfl⟩ := (RelaxedGraph.leastOf_goalValue goals).mem hvalue
  have hgoals : ∀ x ∈ goals, DerivableWithin actions init sum x := by
    intro x hx
    obtain ⟨cost, hcost, hle⟩ := exists_le_of_mem_sumsOf hsum x hx
    exact (derivableWithin_of_mem_derivationCosts hcosts hcost).mono hle
  obtain ⟨level, hlevel, hle⟩ := (RelaxedGraph.leastOf_goalLevel goals).exists_le hgoals
  refine ⟨level, hlevel, ?_⟩
  rw [capped]
  omega

end Positive

namespace GroundAction

theorem cost_instantiate (schema : ActionSchema) (objects : List Name) :
    (instantiate schema objects).cost = 1 := rfl

end GroundAction

namespace RelaxedGraph

/-- Goals that are all reached have a level and a value. With actions made from schemas, which cost
one each, the value is the largest cost or at least the level. -/
theorem goalLevel_le_goalValue
    (hmade : ∀ a ∈ actions, ∃ schema objects, a = GroundAction.instantiate schema objects)
    {goals : List Atom} (hgoals : ∀ x ∈ goals, ((build actions init).cost? x).isSome = true) :
    ∃ level value, (build actions init).goalLevel goals = some level ∧
      (build actions init).goalValue goals = some value ∧ (value = maxCost ∨ level ≤ value) := by
  have hcosts : ∀ a ∈ actions, 1 ≤ a.cost := by
    intro a ha
    obtain ⟨schema, objects, rfl⟩ := hmade a ha
    exact (GroundAction.cost_instantiate schema objects).ge
  have hderivable : ∀ x ∈ goals, Derivable actions init x := by
    intro x hx
    rw [← derivationCosts_nonempty_iff, ← Set.image_nonempty (f := capped),
      ← (leastOf_finalCosts x).isSome_iff]
    exact hgoals x hx
  obtain ⟨value, hvalue⟩ := Option.isSome_iff_exists.mp (isSome_goalValue_iff.mpr hderivable)
  obtain ⟨level, hlevel, hle⟩ := exists_goalLevel_le hcosts hvalue
  exact ⟨level, value, hlevel, hvalue, hle⟩

/-- What is clear is lifted. -/
def lift : ActionSchema where
  name := "lift"
  parameters := [⟨"?x", objectType⟩]
  precondition := ⟨[⟨"clear", ["?x"]⟩], []⟩
  effect := ⟨[⟨"held", ["?x"]⟩], [⟨"clear", ["?x"]⟩]⟩

/-- Two things that are held are joined. -/
def join : ActionSchema where
  name := "join"
  parameters := [⟨"?x", objectType⟩, ⟨"?y", objectType⟩]
  precondition := ⟨[⟨"held", ["?x"]⟩, ⟨"held", ["?y"]⟩], []⟩
  effect := ⟨[⟨"joined", ["?x", "?y"]⟩], []⟩

/-- Two blocks can be lifted, and then joined. -/
def joining : List GroundAction :=
  [.instantiate lift ["a"], .instantiate lift ["b"], .instantiate join ["a", "b"]]

/-- Both blocks are lifted at one level, and each is paid for. -/
theorem goalLevel_le_goalValue_joining :
    (∀ a ∈ joining, ∃ schema objects, a = GroundAction.instantiate schema objects) ∧
    (build joining [⟨"clear", ["a"]⟩, ⟨"clear", ["b"]⟩]).goalLevel [⟨"joined", ["a", "b"]⟩] =
      some 2 ∧
    ∃ value, (build joining [⟨"clear", ["a"]⟩, ⟨"clear", ["b"]⟩]).goalValue
      [⟨"joined", ["a", "b"]⟩] = some value ∧ (value = maxCost ∨ 2 ≤ value) := by
  have hmade : ∀ a ∈ joining, ∃ schema objects, a = GroundAction.instantiate schema objects := by
    simp [joining]
  have hlevel : (build joining [⟨"clear", ["a"]⟩, ⟨"clear", ["b"]⟩]).goalLevel
      [⟨"joined", ["a", "b"]⟩] = some 2 := by
    decide +kernel
  have hgoals : ∀ x ∈ [(⟨"joined", ["a", "b"]⟩ : Atom)],
      ((build joining [⟨"clear", ["a"]⟩, ⟨"clear", ["b"]⟩]).cost? x).isSome = true := by
    decide +kernel
  obtain ⟨level, value, hfirst, hvalue, hle⟩ := goalLevel_le_goalValue hmade hgoals
  obtain rfl := Option.some.inj (hlevel.symm.trans hfirst)
  exact ⟨hmade, hlevel, value, hvalue, hle⟩

end RelaxedGraph

end StripsReach
