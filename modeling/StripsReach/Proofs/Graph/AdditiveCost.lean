import StripsReach.Proofs.Graph.Costs
import StripsReach.Proofs.Graph.RelaxedLevels

/-!
# The costs of a relaxed planning graph are those of the cheapest derivations

A level gives each atom the cost of its cheapest derivation that is no deeper than the level, cut
off at the largest cost. At the last level the bound on the depth makes no difference any more.
-/

namespace StripsReach

/-- That a number is there iff a cost is, and is then the least cost cut off at the largest one. -/
structure CappedLeast (number : Option Nat) (costs : Set Nat) : Prop where
  isSome_iff : number.isSome = true ↔ ∃ cost, cost ∈ costs
  eq_least : ∀ cost, IsLeast costs cost → number = some (min maxCost cost)

theorem LeastOf.cappedLeast {number : Option Nat} {costs : Set Nat}
    (h : LeastOf number (capped '' costs)) : CappedLeast number costs where
  isSome_iff := h.isSome_iff.trans Set.image_nonempty
  eq_least := fun _ hcost => (h _).mpr (isLeast_capped_image hcost)

namespace RelaxedGraph

variable {actions : List GroundAction} {init : List Atom}

/-- From the cheapest derivations of depth `n` to those of depth `n + 1`. -/
theorem leastOf_successor {n : Nat} {costs : Costs}
    (h : ∀ x, LeastOf costs[x]? (capped '' costsWithin actions init n x)) (x : Atom) :
    LeastOf ((Costs.successor (NumberedAction.ofList actions) costs)[x]?)
      (capped '' costsWithin actions init (n + 1) x) := by
  have hsum : ∀ a : GroundAction, LeastOf (costs.sum? a.needs)
      (capped '' sumsOf (costsWithin actions init n) a.needs) :=
    fun _ => Costs.leastOf_sum? fun y _ => h y
  refine ((h x).union (Costs.leastOf_successor actions costs x)).of_subset ?_ ?_
  · rintro v (hv | ⟨a, ha, hx, sum, hsome, rfl⟩)
    · exact Set.image_mono (costsWithin_mono (Nat.le_succ n) x) hv
    · obtain ⟨exact, hexact, rfl⟩ := (hsum a).mem hsome
      refine ⟨a.cost + exact, ?_, (addCost_capped a.cost exact).symm⟩
      exact mem_costsWithin_succ.mpr (.inr ⟨a, ha, hx, exact, hexact, rfl⟩)
  · rintro _ ⟨cost, hcost, rfl⟩
    rcases mem_costsWithin_succ.mp hcost with ⟨hx, rfl⟩ | ⟨a, ha, hx, sum, hmem, rfl⟩
    · have hwithin : 0 ∈ costsWithin actions init n x :=
        costsWithin_mono (Nat.zero_le n) x (mem_costsWithin_zero.mpr ⟨hx, rfl⟩)
      exact ⟨_, .inl ⟨0, hwithin, rfl⟩, le_rfl⟩
    · obtain ⟨v, hv, hle⟩ := (hsum a).exists_le ⟨sum, hmem, rfl⟩
      refine ⟨addCost a.cost v, .inr ⟨a, ha, hx, v, hv, rfl⟩, ?_⟩
      rw [← addCost_capped]
      exact addCost_mono a.cost hle

theorem leastOf_levelCosts (n : Nat) (x : Atom) :
    LeastOf (levelCosts actions init n)[x]? (capped '' costsWithin actions init n x) := by
  induction n generalizing x with
  | zero =>
    have hset : capped '' costsWithin actions init 0 x = {v | x ∈ init ∧ v = 0} := by
      ext v
      constructor
      · rintro ⟨cost, hcost, rfl⟩
        obtain ⟨hx, rfl⟩ := mem_costsWithin_zero.mp hcost
        exact ⟨hx, rfl⟩
      · rintro ⟨hx, rfl⟩
        exact ⟨0, mem_costsWithin_zero.mpr ⟨hx, rfl⟩, rfl⟩
    rw [hset]
    exact Costs.leastOf_ofAtoms init x
  | succ n ih =>
    rw [levelCosts_succ]
    exact leastOf_successor ih x

/-- Derivations deeper than the last level are no cheaper. -/
theorem leastOf_finalCosts (x : Atom) :
    LeastOf (build actions init).finalCosts[x]? (capped '' derivationCosts actions init x) := by
  rw [finalCosts_build]
  refine (leastOf_levelCosts _ x).of_subset ?_ ?_
  · rintro _ ⟨cost, hcost, rfl⟩
    exact ⟨cost, mem_derivationCosts_iff.mpr ⟨_, hcost⟩, rfl⟩
  · rintro _ ⟨cost, hcost, rfl⟩
    obtain ⟨n, hn⟩ := mem_derivationCosts_iff.mp hcost
    -- The depth may be less than the last level, so both are added up.
    have hdeeper := costsWithin_mono (Nat.le_add_left n (build actions init).lastLevel) x hn
    obtain ⟨v, hv, hle⟩ := (leastOf_levelCosts _ x).exists_le ⟨cost, hdeeper, rfl⟩
    rw [levelCosts_of_le actions init (Nat.le_add_right _ n)] at hv
    exact ⟨v, (leastOf_levelCosts _ x).mem hv, hle⟩

theorem leastOf_goalValue (goals : List Atom) :
    LeastOf ((build actions init).goalValue goals)
      (capped '' sumsOf (derivationCosts actions init) goals) :=
  Costs.leastOf_sum? fun x _ => leastOf_finalCosts x

/-- The relaxed graph gives the cost of the cheapest derivations: those no deeper than a level at
that level, and all at the end, where the goals together cost the sum of what each costs. -/
theorem costs_eq_cheapest_derivation (actions : List GroundAction) (init : List Atom) :
    (∀ n layer, (build actions init).layers[n]? = some layer → layer.level = n ∧
      ∀ x, CappedLeast layer.costs[x]? (costsWithin actions init n x)) ∧
    (∀ x, CappedLeast (build actions init).finalCosts[x]? (derivationCosts actions init x)) ∧
    ∀ goals,
      ((build actions init).goalValue goals = none ↔
        ∃ x ∈ goals, derivationCosts actions init x = ∅) ∧
      ∀ least, (∀ x ∈ goals, IsLeast (derivationCosts actions init x) (least x)) →
        (build actions init).goalValue goals = some (min maxCost (goals.map least).sum) := by
  refine ⟨?_, fun x => (leastOf_finalCosts x).cappedLeast, fun goals => ⟨?_, ?_⟩⟩
  · intro n layer hlayer
    obtain ⟨hlevel, hcosts⟩ := layer_eq actions init hlayer
    refine ⟨hlevel, fun x => ?_⟩
    rw [hcosts]
    exact (leastOf_levelCosts n x).cappedLeast
  · rw [(leastOf_goalValue goals).eq_none_iff, Set.image_eq_empty, sumsOf_eq_empty_iff]
  · intro least hleast
    exact (leastOf_goalValue goals _).mpr (isLeast_capped_image (isLeast_sumsOf hleast))

/-- A fire burns down what is dry, at a cost of three. -/
def burn : GroundAction := ⟨"burn", [], ⟨[⟨"dry", []⟩], []⟩, ⟨[⟨"burnt", []⟩], []⟩, 3⟩

/-- The only derivation of what is burnt costs three, and two goals that are the same count
twice. -/
theorem costs_eq_cheapest_derivation_burn :
    IsLeast (derivationCosts [burn] [⟨"dry", []⟩] ⟨"burnt", []⟩) 3 ∧
    (build [burn] [⟨"dry", []⟩]).goalValue [⟨"burnt", []⟩, ⟨"burnt", []⟩] = some 6 := by
  have hleast : IsLeast (derivationCosts [burn] [⟨"dry", []⟩] ⟨"burnt", []⟩) 3 := by
    constructor
    · have hdry : Derivation [burn] [⟨"dry", []⟩] ⟨"dry", []⟩ ⟨0, 0⟩ := .initial (by simp)
      exact ⟨1, Derivation.action (List.mem_singleton_self burn)
        (by simp [burn, GroundAction.adds]) (.cons hdry .nil)⟩
    · rintro cost ⟨depth, h⟩
      cases h with
      | initial hx => simp at hx
      | action ha =>
        obtain rfl := List.mem_singleton.mp ha
        exact Nat.le_add_right 3 _
  obtain ⟨-, -, hgoals⟩ := costs_eq_cheapest_derivation [burn] [⟨"dry", []⟩]
  refine ⟨hleast, (hgoals _).2 (fun _ => 3) ?_⟩
  simpa using hleast

end RelaxedGraph

end StripsReach
