import Mathlib.Data.List.Nodup
import StripsReach.Domain
import StripsReach.Proofs.Refusal

/-!
# Names of definitions

In a domain that has been read no two predicates and no two actions have the same name, since a
second definition of a name is refused where it is met.
-/

namespace StripsReach.Domain

/-- No two predicates and no two actions have the same name. -/
structure DistinctNames (d : Domain) : Prop where
  predicates : (d.predicates.map PredicateSchema.name).Nodup
  actions : (d.actions.map ActionSchema.name).Nodup

variable {d next : Domain} {e : SExpr} {items : List SExpr}

/-! ### Accepted definitions -/

theorem addPredicate_eq_ok_iff : d.addPredicate e = .ok next ↔
    ∃ predicate, PredicateSchema.ofSExpr e = .ok predicate ∧ d.predicate? predicate.name = none ∧
      next = { d with predicates := d.predicates ++ [predicate] } := by
  rw [addPredicate, bind_eq_ok_iff]
  refine exists_congr fun predicate => and_congr_right fun _ => ?_
  cases d.predicate? predicate.name with
  | none => exact ⟨fun h => ⟨rfl, (Except.ok.inj h).symm⟩, fun h => congrArg Except.ok h.2.symm⟩
  | some _ => exact ⟨nofun, nofun⟩

theorem addAction_eq_ok_iff : d.addAction items = .ok next ↔
    ∃ action, ActionSchema.ofItems items = .ok action ∧ d.action? action.name = none ∧
      next = { d with actions := d.actions ++ [action] } := by
  rw [addAction, bind_eq_ok_iff]
  refine exists_congr fun action => and_congr_right fun _ => ?_
  cases d.action? action.name with
  | none => exact ⟨fun h => ⟨rfl, (Except.ok.inj h).symm⟩, fun h => congrArg Except.ok h.2.symm⟩
  | some _ => exact ⟨nofun, nofun⟩

/-! ### Distinct names -/

theorem distinctNames_empty : DistinctNames {} := ⟨List.nodup_nil, List.nodup_nil⟩

/-- A name that a search for it does not find can be added. -/
theorem nodup_map_concat {α : Type} {name : α → Name} {l : List α} {a : α}
    (hl : (l.map name).Nodup) (hnew : l.find? (fun x => name x = name a) = none) :
    ((l ++ [a]).map name).Nodup := by
  rw [List.map_append, List.map_singleton]
  refine List.nodup_append.mpr ⟨hl, List.nodup_singleton _, fun x hx y hy => ?_⟩
  obtain ⟨b, hb, rfl⟩ := List.mem_map.mp hx
  rw [List.mem_singleton.mp hy]
  simpa using List.find?_eq_none.mp hnew b hb

theorem DistinctNames.addPredicate (hd : DistinctNames d) (hadd : d.addPredicate e = .ok next) :
    DistinctNames next := by
  obtain ⟨predicate, -, hnew, rfl⟩ := addPredicate_eq_ok_iff.mp hadd
  exact ⟨nodup_map_concat hd.predicates hnew, hd.actions⟩

theorem DistinctNames.addAction (hd : DistinctNames d) (hadd : d.addAction items = .ok next) :
    DistinctNames next := by
  obtain ⟨action, -, hnew, rfl⟩ := addAction_eq_ok_iff.mp hadd
  exact ⟨hd.predicates, nodup_map_concat hd.actions hnew⟩

theorem DistinctNames.addSection {kind : Section} {body : List SExpr} (hd : DistinctNames d)
    (hadd : d.addSection kind body = .ok next) : DistinctNames next := by
  cases kind with
  | name =>
    unfold Domain.addSection at hadd
    dsimp only at hadd
    split at hadd
    · cases hadd
      exact ⟨hd.predicates, hd.actions⟩
    · cases hadd
  | requirements =>
    obtain ⟨requirements, -, hadd⟩ := exists_of_bind_eq_ok hadd
    cases hadd
    exact ⟨hd.predicates, hd.actions⟩
  | types =>
    obtain ⟨types, -, hadd⟩ := exists_of_bind_eq_ok hadd
    cases hadd
    exact ⟨hd.predicates, hd.actions⟩
  | predicates => exact invariant_of_foldlM (fun _ _ _ hd => hd.addPredicate) hd hadd
  | action => exact hd.addAction hadd

theorem DistinctNames.add (hd : DistinctNames d) (hadd : d.add e = .ok next) :
    DistinctNames next := by
  unfold Domain.add at hadd
  split at hadd
  · split at hadd
    · exact hd.addSection hadd
    · cases hadd
      exact hd
  · cases hadd

theorem distinctNames_of_ofSExpr (hread : ofSExpr e = .ok d) : DistinctNames d := by
  rw [ofSExpr] at hread
  split at hread
  · exact invariant_of_foldlM (fun _ _ _ hd => hd.add) distinctNames_empty hread
  · cases hread

end StripsReach.Domain
