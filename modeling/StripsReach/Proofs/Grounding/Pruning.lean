import StripsReach.Proofs.Grounding.Actions

/-!
# What pruning leaves out

Pruning rules look at an assignment only through the ground action that it gives: its name and its
arguments. So the ground actions that are kept can be told from the list of all, where they stand in
the same order, and what several rules leave out is what any of them does. A rule whose positions
are not both in range applies to no action of the schema, be it reported or not.
-/

namespace StripsReach

/-- The rule names the action, and there is one object at both of its positions. -/
def PruningRule.Applies (rule : PruningRule) (a : GroundAction) : Prop :=
  rule.action = a.name ∧
    ∃ (hfirst : rule.first < a.arguments.length) (hsecond : rule.second < a.arguments.length),
      a.arguments[rule.first] = a.arguments[rule.second]

/-- Some rule applies to the action. -/
def Pruned (rules : List PruningRule) (a : GroundAction) : Prop := ∃ rule ∈ rules, rule.Applies a

variable {d : Domain} {c : Catalog} {rule : PruningRule} {rules others : List PruningRule}
  {schema : ActionSchema} {a : GroundAction} {objects : List Name}

instance : Decidable (rule.Applies a) :=
  inferInstanceAs (Decidable (rule.action = a.name ∧ ∃ (_ : _ < _) (_ : _ < _), _))

instance : DecidablePred (Pruned rules) :=
  fun a => inferInstanceAs (Decidable (∃ rule ∈ rules, rule.Applies a))

/-- A rejected assignment gives an action that the rule applies to. -/
theorem rejects_iff_applies :
    rule.rejects schema.name objects ↔ rule.Applies (.instantiate schema objects) := by
  show _ ↔ rule.action = schema.name ∧
    ∃ (hfirst : rule.first < objects.length) (hsecond : rule.second < objects.length),
      objects[rule.first] = objects[rule.second]
  rw [PruningRule.rejects, Bool.and_eq_true, decide_eq_true_eq]
  refine and_congr_right fun _ => ?_
  by_cases hfirst : rule.first < objects.length
  · by_cases hsecond : rule.second < objects.length
    · simp [hfirst, hsecond]
    · simp [hsecond]
  · simp [hfirst]

theorem passes_iff_not_pruned :
    Passes rules schema.name objects ↔ ¬ Pruned rules (.instantiate schema objects) := by
  simp only [Passes, Pruned, rejects_iff_applies, not_exists, not_and]

/-! ### Several rules -/

theorem pruned_append :
    Pruned (rules ++ others) a ↔ Pruned rules a ∨ Pruned others a := by
  simp only [Pruned, List.mem_append, or_and_right, exists_or]

theorem pruned_congr (hsame : ∀ rule, rule ∈ rules ↔ rule ∈ others) :
    Pruned rules a ↔ Pruned others a := by
  simp only [Pruned, hsame]

theorem filter_not_pruned_nil (actions : List GroundAction) :
    (actions.filter fun a => ¬ Pruned [] a) = actions := by
  refine List.filter_eq_self.mpr fun a _ => ?_
  simp [Pruned]

/-- Of the actions that pass one list of rules, those that pass another are those that pass both. -/
theorem filter_mem_filter (actions : List GroundAction) :
    ((actions.filter fun a => ¬ Pruned rules a).filter
        (· ∈ actions.filter fun a => ¬ Pruned others a)) =
      actions.filter fun a => ¬ Pruned (rules ++ others) a := by
  rw [List.filter_filter]
  refine List.filter_congr fun a ha => ?_
  simp [ha, pruned_append, Bool.and_comm]

namespace ActionSchema

/-- The ground actions for all assignments. -/
def instances (c : Catalog) (schema : ActionSchema) : List GroundAction :=
  (choices (schema.parameters.map c.options)).map (GroundAction.instantiate schema)

theorem length_of_mem_instances (ha : a ∈ schema.instances c) :
    a.arguments.length = schema.parameters.length := by
  obtain ⟨objects, hobjects, rfl⟩ := List.mem_map.mp ha
  have hlength := (mem_choices_options.mp hobjects).length
  rw [TypedList.values, List.length_map] at hlength
  exact hlength.symm

theorem map_keptAssignments :
    (Domain.keptAssignments c rules schema).map (GroundAction.instantiate schema) =
      (schema.instances c).filter fun a => ¬ Pruned rules a := by
  rw [Domain.keptAssignments, instances, List.filter_map]
  refine congrArg (List.map _) (List.filter_congr fun objects _ => ?_)
  exact decide_eq_decide.mpr passes_iff_not_pruned

/-- A rule that is reported has a position that no action of the schema has. -/
theorem not_applies_of_isOutOfRange (hrule : rule.isOutOfRange schema)
    (ha : a ∈ schema.instances c) : ¬ rule.Applies a := by
  rintro ⟨-, hfirst, hsecond, -⟩
  rw [length_of_mem_instances ha] at hfirst hsecond
  simp only [PruningRule.isOutOfRange, Bool.and_eq_true, Bool.or_eq_true, decide_eq_true_eq] at hrule
  omega

theorem ground_eq_of_reported {before after : List PruningRule}
    (hreported : PruningRule.warnings [rule] schema ≠ []) :
    schema.ground c (before ++ rule :: after) = schema.ground c (before ++ after) := by
  have hrule : rule.isOutOfRange schema := by
    by_contra hrule
    simp [PruningRule.warnings, hrule] at hreported
  have hkept : ((schema.instances c).filter fun a => ¬ Pruned (before ++ rule :: after) a) =
      (schema.instances c).filter fun a => ¬ Pruned (before ++ after) a := by
    refine List.filter_congr fun a ha => decide_eq_decide.mpr (not_congr ?_)
    have hnot : ¬ rule.Applies a := not_applies_of_isOutOfRange hrule ha
    rw [pruned_append, pruned_append]
    simp [Pruned, hnot]
  rw [Domain.ground_eq, Domain.ground_eq, map_keptAssignments, map_keptAssignments, hkept]

end ActionSchema

namespace Domain

theorem groundActions_eq_instances : d.groundActions c rules =
    (c.firstUnknown? d.actionSignatures).elim
      (.ok ((d.actions.flatMap (·.instances c)).filter fun a => ¬ Pruned rules a))
      fun owned => .error (.undeclaredType owned.2.value .action owned.1 owned.2.type) := by
  rw [groundActions_eq, List.filter_flatMap]
  simp only [ActionSchema.map_keptAssignments]

/-- Pruning leaves actions out of the list of all, which stay in their places otherwise: those to
which some rule applies. It does not matter in which order the rules stand and how often; what two
lists of rules leave together is what both leave; and a rule that is reported as out of range for a
schema leaves out none of its actions. -/
theorem groundActions_eq_filter (d : Domain) (c : Catalog) :
    (∀ rules, d.groundActions c rules =
      List.filter (fun a => ¬ Pruned rules a) <$> d.groundActions c []) ∧
    (∀ rules others, (∀ rule, rule ∈ rules ↔ rule ∈ others) →
      d.groundActions c rules = d.groundActions c others) ∧
    (∀ rules others kept kept', d.groundActions c rules = .ok kept →
      d.groundActions c others = .ok kept' →
      d.groundActions c (rules ++ others) = .ok (kept.filter (· ∈ kept'))) ∧
    ∀ (schema : ActionSchema) rule before after, PruningRule.warnings [rule] schema ≠ [] →
      schema.ground c (before ++ rule :: after) = schema.ground c (before ++ after) := by
  refine ⟨fun rules => ?_, fun rules others hsame => ?_, fun rules others kept kept' hkept hkept' => ?_,
    fun schema rule before after => ActionSchema.ground_eq_of_reported⟩
  · rw [groundActions_eq_instances, groundActions_eq_instances, filter_not_pruned_nil]
    cases c.firstUnknown? d.actionSignatures <;> rfl
  · have hpruned : Pruned rules = Pruned others := funext fun a => propext (pruned_congr hsame)
    simp only [groundActions_eq_instances, hpruned]
  · rw [groundActions_eq_instances] at hkept hkept' ⊢
    cases hunknown : c.firstUnknown? d.actionSignatures with
    | some owned =>
      rw [hunknown] at hkept
      cases hkept
    | none =>
      rw [hunknown] at hkept hkept'
      cases hkept
      cases hkept'
      rw [filter_mem_filter]
      rfl

/-- One action with three parameters and one with none. -/
def errands : Domain := { actions := [{ name := "ring" }, drive] }

/-- Not from a place to itself. -/
def noLoop : PruningRule := ⟨"drive", 1, 2⟩

/-- Not from the truck itself. -/
def noSelf : PruningRule := ⟨"drive", 0, 1⟩

theorem groundActions_eq_filter_errands :
    (∀ rule, rule ∈ [noLoop, noSelf, noLoop] ↔ rule ∈ [noSelf, noLoop]) ∧
    errands.groundActions depot [noLoop, noSelf, noLoop] =
      errands.groundActions depot [noSelf, noLoop] ∧
    (∃ kept kept', errands.groundActions depot [noLoop] = .ok kept ∧
      errands.groundActions depot [noSelf] = .ok kept' ∧
      errands.groundActions depot ([noLoop] ++ [noSelf]) = .ok (kept.filter (· ∈ kept'))) ∧
    PruningRule.warnings [⟨"ring", 0, 0⟩] { name := "ring" } ≠ [] ∧
    ActionSchema.ground { name := "ring" } depot ([noLoop] ++ ⟨"ring", 0, 0⟩ :: [noSelf]) =
      ActionSchema.ground { name := "ring" } depot ([noLoop] ++ [noSelf]) := by
  have hsame : ∀ rule, rule ∈ [noLoop, noSelf, noLoop] ↔ rule ∈ [noSelf, noLoop] := by
    intro rule
    simp only [List.mem_cons, List.not_mem_nil, or_false]
    tauto
  have hreported : PruningRule.warnings [⟨"ring", 0, 0⟩] { name := "ring" } ≠ [] := by decide
  have hkept : errands.groundActions depot [noLoop] = .ok _ := rfl
  have hkept' : errands.groundActions depot [noSelf] = .ok _ := rfl
  obtain ⟨-, hcongr, happend, hground⟩ := groundActions_eq_filter errands depot
  exact ⟨hsame, hcongr _ _ hsame, ⟨_, _, hkept, hkept', happend _ _ _ _ hkept hkept'⟩, hreported,
    hground _ _ _ _ hreported⟩

/-- Both rules together leave the action without parameters and the way to the truck. -/
example : (errands.groundActions depot [noLoop, noSelf]).map (·.map GroundAction.arguments) =
    .ok [[], ["t", "p", "t"]] := by
  decide +kernel

end Domain

end StripsReach
