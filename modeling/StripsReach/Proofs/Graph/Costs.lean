import StripsReach.Graph.Relaxed
import StripsReach.Proofs.Graph.Derivation
import StripsReach.Proofs.Least

/-!
# What the operations on costs keep

Each operation keeps the least of some numbers for every atom. Costs are cut off at the largest
one; cutting off every sum on the way comes to the same as cutting off once at the end.
-/

namespace StripsReach

/-- A cost cut off at the largest one. -/
def capped (n : Nat) : Nat := min maxCost n

theorem capped_mono {m n : Nat} (h : m ≤ n) : capped m ≤ capped n := by
  simp only [capped]
  omega

theorem addCost_mono (a : Nat) {m n : Nat} (h : m ≤ n) : addCost a m ≤ addCost a n := by
  simp only [addCost]
  omega

theorem addCost_capped (a n : Nat) : addCost a (capped n) = capped (a + n) := by
  simp only [addCost, capped]
  omega

theorem capped_addCost_add (total v sum : Nat) :
    capped (addCost total v + sum) = capped (total + (v + sum)) := by
  simp only [addCost, capped]
  omega

theorem capped_add_capped_add (total cost sum : Nat) :
    capped (total + (capped cost + sum)) = capped (total + (cost + sum)) := by
  simp only [capped]
  omega

/-- The least number stays the least one when all are cut off. -/
theorem isLeast_capped_image {S : Set Nat} {n : Nat} (h : IsLeast S n) :
    IsLeast (capped '' S) (capped n) := by
  refine ⟨⟨n, h.1, rfl⟩, ?_⟩
  rintro _ ⟨k, hk, rfl⟩
  exact capped_mono (h.2 hk)

namespace Costs

/-- The number kept for an atom after an offer is the least of what was known and offered. -/
theorem leastOf_offer (cost : Nat) (costs : Costs) (a b : Atom) :
    LeastOf ((offer cost costs a)[b]?)
      ({v | costs[b]? = some v} ∪ {v | a = b ∧ v = cost}) := by
  rw [getElem?_offer]
  by_cases hab : a = b
  · subst hab
    rw [if_pos rfl]
    refine (LeastOf.some_singleton _).of_subset ?_ ?_
    · rintro v rfl
      cases costs[a]? with
      | none => exact .inr ⟨rfl, by simp⟩
      | some known =>
        rcases Nat.le_total known cost with hk | hk
        · exact .inl (by simp [Nat.min_eq_left hk])
        · exact .inr ⟨rfl, by simp [Nat.min_eq_right hk]⟩
    · rintro v (hv | ⟨-, rfl⟩)
      · have hv' : costs[a]? = some v := hv
        exact ⟨_, rfl, by rw [hv']; exact Nat.min_le_left _ _⟩
      · exact ⟨_, rfl, Nat.min_le_right _ _⟩
  · rw [if_neg hab]
    exact LeastOf.of_some_union _ fun v hv => hab hv.1

/-- A fold keeps the least of what was known and of what each of its steps offers. -/
theorem leastOf_foldl {α : Type} {step : Costs → α → Costs} {offers : α → Set Nat} {b : Atom}
    (hstep : ∀ costs a, LeastOf ((step costs a)[b]?) ({v | costs[b]? = some v} ∪ offers a))
    (xs : List α) (costs : Costs) :
    LeastOf ((xs.foldl step costs)[b]?)
      ({v | costs[b]? = some v} ∪ {v | ∃ a ∈ xs, v ∈ offers a}) := by
  induction xs generalizing costs with
  | nil => exact LeastOf.of_some_union _ (by simp)
  | cons a xs ih =>
    have hall := (hstep costs a).union (ih (step costs a))
    rw [Set.union_assoc] at hall
    have hoffers : offers a ∪ {v | ∃ a ∈ xs, v ∈ offers a} =
        {v | ∃ c ∈ a :: xs, v ∈ offers c} := by
      ext v
      simp
    rwa [hoffers] at hall

theorem leastOf_offerAll (costs : Costs) (acts : List (NumberedAction × Nat)) (b : Atom) :
    LeastOf ((costs.offerAll acts)[b]?)
      ({v | costs[b]? = some v} ∪ {v | ∃ a ∈ acts, ∃ x ∈ a.1.action.adds, x = b ∧ v = a.2}) :=
  leastOf_foldl (fun costs a => leastOf_foldl (fun costs x => leastOf_offer a.2 costs x b)
    a.1.action.adds costs) acts costs

/-- The next level keeps the least of what was known and of what the enabled actions cost. -/
theorem leastOf_successor (actions : List GroundAction) (costs : Costs) (b : Atom) :
    LeastOf ((successor (NumberedAction.ofList actions) costs)[b]?)
      ({v | costs[b]? = some v} ∪ {v | ∃ a ∈ actions, b ∈ a.adds ∧
        ∃ sum, costs.sum? a.needs = some sum ∧ v = addCost a.cost sum}) := by
  have hall := leastOf_offerAll costs (costs.enabled (NumberedAction.ofList actions)) b
  refine hall.of_subset ?_ ?_
  · rintro v (hv | ⟨act, hact, _, hadds, rfl, rfl⟩)
    · exact .inl hv
    · obtain ⟨a, ha, hmap⟩ := List.mem_filterMap.mp hact
      obtain ⟨sum, hsum, rfl⟩ := Option.map_eq_some_iff.mp hmap
      have hmem := List.mem_of_getElem? (NumberedAction.mem_ofList.mp ha)
      exact .inr ⟨a.action, hmem, hadds, sum, hsum, rfl⟩
  · rintro v (hv | ⟨a, ha, hadds, sum, hsum, rfl⟩)
    · exact ⟨v, .inl hv, le_rfl⟩
    · obtain ⟨i, hi⟩ := List.mem_iff_getElem?.mp ha
      have hnumbered : (⟨i, a⟩ : NumberedAction) ∈ NumberedAction.ofList actions :=
        NumberedAction.mem_ofList.mpr hi
      have hact : ((⟨i, a⟩ : NumberedAction), addCost a.cost sum) ∈
          costs.enabled (NumberedAction.ofList actions) :=
        List.mem_filterMap.mpr ⟨_, hnumbered, Option.map_eq_some_iff.mpr ⟨sum, hsum, rfl⟩⟩
      exact ⟨_, .inr ⟨_, hact, b, hadds, rfl, rfl⟩, le_rfl⟩

/-- Adding up from `total` on gives the least of the sums, cut off at the end only. -/
theorem leastOf_sumFrom {costs : Costs} {S : Atom → Set Nat} {atoms : List Atom}
    (h : ∀ x ∈ atoms, LeastOf costs[x]? (capped '' S x)) {total : Nat} (htotal : total ≤ maxCost) :
    LeastOf (atoms.foldlM (fun total a => (costs[a]?).map (addCost total)) total)
      ((fun sum => capped (total + sum)) '' sumsOf S atoms) := by
  induction atoms generalizing total with
  | nil =>
    have hcapped : capped total = total := Nat.min_eq_right htotal
    simpa [sumsOf, hcapped] using LeastOf.some_singleton total
  | cons x atoms ih =>
    have hx := h x List.mem_cons_self
    have hrest := fun total => @ih (fun y hy => h y (List.mem_cons_of_mem x hy)) total
    rw [List.foldlM_cons]
    cases hcost : costs[x]? with
    | none =>
      have hempty : S x = ∅ := by
        rwa [hx.eq_none_iff, Set.image_eq_empty] at hcost
      have hsums : sumsOf S (x :: atoms) = ∅ := by
        simp [sumsOf, hempty]
      rw [hsums, Set.image_empty]
      exact LeastOf.none_empty
    | some v =>
      have hleast := hrest (addCost total v) (Nat.min_le_left _ _)
      refine hleast.of_subset ?_ ?_
      · rintro _ ⟨rest, hmem, rfl⟩
        obtain ⟨cost, hmem_cost, rfl⟩ := hx.mem hcost
        refine ⟨cost + rest, ⟨cost, hmem_cost, rest, hmem, rfl⟩, ?_⟩
        change capped _ = capped _
        rw [capped_addCost_add, capped_add_capped_add]
      · rintro _ ⟨_, ⟨cost, hmem_cost, rest, hmem, rfl⟩, rfl⟩
        refine ⟨_, ⟨rest, hmem, rfl⟩, ?_⟩
        obtain ⟨w, hw, hle⟩ := hx.exists_le ⟨cost, hmem_cost, rfl⟩
        rw [hcost, Option.some.injEq] at hw
        subst hw
        change capped _ ≤ capped _
        rw [capped_addCost_add, ← capped_add_capped_add total cost]
        exact capped_mono (by omega)

theorem leastOf_sum? {costs : Costs} {S : Atom → Set Nat} {atoms : List Atom}
    (h : ∀ x ∈ atoms, LeastOf costs[x]? (capped '' S x)) :
    LeastOf (costs.sum? atoms) (capped '' sumsOf S atoms) := by
  have hsum := leastOf_sumFrom h (Nat.zero_le maxCost)
  simp only [Nat.zero_add] at hsum
  exact hsum

theorem leastOf_insert_zero (costs : Costs) (a b : Atom) :
    LeastOf ((costs.insert a 0)[b]?) ({v | costs[b]? = some v} ∪ {v | a = b ∧ v = 0}) := by
  rw [Std.ExtTreeMap.getElem?_insert]
  by_cases hab : a = b
  · subst hab
    rw [if_pos (Std.ReflCmp.compare_self)]
    refine (LeastOf.some_singleton 0).of_subset ?_ ?_
    · rintro v rfl
      exact .inr ⟨rfl, rfl⟩
    · exact fun v _ => ⟨0, rfl, Nat.zero_le v⟩
  · rw [if_neg (by simpa using hab)]
    exact LeastOf.of_some_union _ fun v hv => hab hv.1

theorem leastOf_ofAtoms (atoms : List Atom) (b : Atom) :
    LeastOf ((ofAtoms atoms)[b]?) {v | b ∈ atoms ∧ v = 0} := by
  have hall := leastOf_foldl (fun costs a => leastOf_insert_zero costs a b) atoms ∅
  refine hall.of_subset ?_ ?_
  · rintro v (hv | ⟨_, ha, rfl, rfl⟩)
    · simp at hv
    · exact ⟨ha, rfl⟩
  · rintro v ⟨hb, rfl⟩
    exact ⟨0, .inr ⟨b, hb, rfl, rfl⟩, le_rfl⟩

end Costs

end StripsReach
