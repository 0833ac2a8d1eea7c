import StripsReach.Proofs.Graph.AdditiveCost
import StripsReach.Proofs.Graph.SettledCosts

/-!
# How long costs fall

From each level of a relaxed graph to the next an atom comes or a cost falls, and nothing gets
worse. Costs may go on falling when no atom comes any more, but only as long as some atom's
cheapest derivation is deeper than the level, so there are no more steps than atoms to gain.
-/

namespace StripsReach.RelaxedGraph

/-- That relaxation ends at the costs: they enable no action, or those they enable change
nothing. -/
def Stops (actions : List NumberedAction) (costs : Costs) : Prop :=
  costs.enabled actions = [] ∨ Costs.successor actions costs = costs

variable (actions : List GroundAction) (init : List Atom)

/-- Relaxed again and again, the costs come to some where relaxation ends, and the graph has the
levels up to the first such costs. -/
theorem isLeast_stops_build :
    IsLeast {n | Stops (NumberedAction.ofList actions) (levelCosts actions init n)}
      (build actions init).lastLevel := by
  have hstops := (levels_build actions init).isLeast_stops
  simp only [growth, List.map_eq_nil_iff] at hstops
  exact hstops

variable {actions init} {n : Nat}

/-- A reached atom stays reached, at no higher cost. -/
theorem exists_le_levelCosts_succ {x : Atom} {cost : Nat}
    (h : (levelCosts actions init n)[x]? = some cost) :
    ∃ lower ≤ cost, (levelCosts actions init (n + 1))[x]? = some lower := by
  rw [levelCosts_succ]
  have hleast := Costs.leastOf_successor actions (levelCosts actions init n) x
  obtain ⟨lower, hlower, hle⟩ := hleast.exists_le (.inl h)
  exact ⟨lower, hle, hlower⟩

/-- An atom is reached that was not, or reached at a lower cost. -/
theorem exists_lower_levelCosts_succ (hn : n < (build actions init).lastLevel) :
    ∃ (x : Atom) (lower : Nat), (levelCosts actions init (n + 1))[x]? = some lower ∧
      ∀ cost, (levelCosts actions init n)[x]? = some cost → lower < cost := by
  have hchanges : levelCosts actions init (n + 1) ≠ levelCosts actions init n :=
    (levels_build actions init).stops.changes n hn
  obtain ⟨x, hx⟩ : ∃ x, (levelCosts actions init (n + 1))[x]? ≠ (levelCosts actions init n)[x]? := by
    by_contra hsame
    exact hchanges (Std.ExtTreeMap.ext_getElem? fun x => by_contra fun hx => hsame ⟨x, hx⟩)
  cases hbefore : (levelCosts actions init n)[x]? with
  | none =>
    obtain ⟨lower, hlower⟩ := Option.ne_none_iff_exists'.mp (hbefore ▸ hx)
    exact ⟨x, lower, hlower, fun cost hcost => nomatch hbefore.symm.trans hcost⟩
  | some known =>
    obtain ⟨lower, hle, hlower⟩ := exists_le_levelCosts_succ hbefore
    refine ⟨x, lower, hlower, fun cost hcost => ?_⟩
    obtain rfl : known = cost := Option.some.inj (hbefore.symm.trans hcost)
    refine Nat.lt_of_le_of_ne hle fun heq => hx ?_
    rw [hlower, hbefore, heq]

/-- Costs do not change any more when every atom is settled. Cutting off large costs does no harm,
since the same costs are cut off at both levels. -/
theorem levelCosts_succ_eq_of_settled (h : ∀ x, SettledWithin actions init n x) :
    levelCosts actions init (n + 1) = levelCosts actions init n := by
  refine Std.ExtTreeMap.ext_getElem? fun x => ?_
  have hbefore : LeastOf (levelCosts actions init n)[x]? (capped '' costsWithin actions init n x) :=
    leastOf_levelCosts n x
  refine (leastOf_levelCosts (n + 1) x).unique (hbefore.of_subset ?_ ?_)
  · exact Set.image_mono (costsWithin_mono (Nat.le_succ n) x)
  · rintro _ ⟨cost, hcost, rfl⟩
    obtain ⟨within, hwithin, hle⟩ := h x cost (costsWithin_subset_derivationCosts (n + 1) x hcost)
    exact ⟨capped within, ⟨within, hwithin, rfl⟩, capped_mono hle⟩

theorem lastLevel_le_card_gainable :
    (build actions init).lastLevel ≤ (gainable actions init).card := by
  refine (isLeast_stops_build actions init).2 (.inr ?_)
  rw [← levelCosts_succ]
  exact levelCosts_succ_eq_of_settled settledWithin_card_gainable

/-- Relaxation ends, and the graph has a level for all costs before the first at which it does.
From each level to the next no atom is lost and no cost rises, while an atom comes or a cost
falls, and there are at most as many steps as atoms that actions add and that are not initial. -/
theorem relaxation_ends (actions : List GroundAction) (init : List Atom) :
    IsLeast {n | Stops (NumberedAction.ofList actions) (levelCosts actions init n)}
      (build actions init).lastLevel ∧
    (∀ n < (build actions init).lastLevel, ∃ layer next,
      (build actions init).layers[n]? = some layer ∧
      (build actions init).layers[n + 1]? = some next ∧
      (∀ (x : Atom) (cost : Nat), layer.costs[x]? = some cost →
        ∃ lower ≤ cost, next.costs[x]? = some lower) ∧
      ∃ (x : Atom) (lower : Nat), next.costs[x]? = some lower ∧
        ∀ cost, layer.costs[x]? = some cost → lower < cost) ∧
    (build actions init).lastLevel ≤ (gainable actions init).card := by
  refine ⟨isLeast_stops_build actions init, fun n hn => ?_, lastLevel_le_card_gainable⟩
  exact ⟨_, _, getElem?_layers_build actions init hn.le, getElem?_layers_build actions init hn,
    fun x cost hcost => exists_le_levelCosts_succ hcost, exists_lower_levelCosts_succ hn⟩

/-- What is dry is lit at a cost of one. -/
def light : GroundAction := ⟨"light", [], ⟨[⟨"dry", []⟩], []⟩, ⟨[⟨"lit", []⟩], []⟩, 1⟩

/-- What is lit burns down at a cost of one. -/
def spread : GroundAction := ⟨"spread", [], ⟨[⟨"lit", []⟩], []⟩, ⟨[⟨"burnt", []⟩], []⟩, 1⟩

/-- All atoms are reached at level one, and what is burnt gets cheaper at level two. There are as
many steps as the bound allows. -/
theorem relaxation_ends_spread :
    1 < (build [burn, light, spread] [⟨"dry", []⟩]).lastLevel ∧
    (∃ layer next, (build [burn, light, spread] [⟨"dry", []⟩]).layers[1]? = some layer ∧
      (build [burn, light, spread] [⟨"dry", []⟩]).layers[2]? = some next ∧
      ∃ (x : Atom) (lower : Nat), next.costs[x]? = some lower ∧
        ∀ cost, layer.costs[x]? = some cost → lower < cost) ∧
    (build [burn, light, spread] [⟨"dry", []⟩]).lastLevel ≤ 2 := by
  have hlast : 1 < (build [burn, light, spread] [⟨"dry", []⟩]).lastLevel := by decide +kernel
  obtain ⟨-, hsteps, hbound⟩ := relaxation_ends [burn, light, spread] [⟨"dry", []⟩]
  obtain ⟨layer, next, hlayer, hnext, -, hlower⟩ := hsteps 1 hlast
  have hcard : (gainable [burn, light, spread] [⟨"dry", []⟩]).card = 2 := by decide +kernel
  exact ⟨hlast, ⟨layer, next, hlayer, hnext, hlower⟩, hcard ▸ hbound⟩

end StripsReach.RelaxedGraph
