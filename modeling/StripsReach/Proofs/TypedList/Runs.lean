import Mathlib.Data.List.Basic
import StripsReach.Proofs.Refusal
import StripsReach.TypedList

/-!
# Typed lists written in runs

A typed list is written by cutting it into runs of entries that have one type: the names of a run,
then a hyphen and the type. A last run of the universal type may do without both. However a list is
cut, it is read back as it was, and what is read of any items is a list that they write. The names
must not be hyphens; for the types that makes no difference.
-/

namespace StripsReach.TypedList

/-- The items write the list, cut into runs in some way. -/
inductive InRuns : TypedList → List SExpr → Prop
  | nil : InRuns [] []
  | untyped {run : TypedList} : run ≠ [] → (∀ entry ∈ run, entry.type = objectType) →
      InRuns run (run.values.map SExpr.word)
  | run {run list : TypedList} {type : Name} {items : List SExpr} : run ≠ [] →
      (∀ entry ∈ run, entry.type = type) → InRuns list items →
      InRuns (run ++ list) (run.values.map SExpr.word ++ .word "-" :: .word type :: items)

variable {context : String} {pending names : List Name} {name type : Name} {items rest : List SExpr}
  {list run : TypedList}

theorem mem_ofRun {entry : Typed} :
    entry ∈ ofRun names type ↔ entry.value ∈ names ∧ entry.type = type := by
  obtain ⟨value, type'⟩ := entry
  simp only [ofRun, List.mem_map, Typed.mk.injEq, ↓existsAndEq, true_and]
  exact and_congr_right fun _ => eq_comm

theorem values_ofRun : (ofRun names type).values = names := by
  rw [values, ofRun, List.map_map]
  exact List.map_id _

/-- Entries of one type are the run of their names. -/
theorem ofRun_values (htype : ∀ entry ∈ run, entry.type = type) : ofRun run.values type = run := by
  rw [ofRun, values, List.map_map]
  refine (List.map_congr_left fun entry hentry => ?_).trans (List.map_id run)
  rw [Function.comp_apply, ← htype entry hentry, id]

theorem values_ne_hyphen (hlist : ∀ entry ∈ list, entry.value ≠ "-") :
    ∀ name ∈ list.values, name ≠ "-" :=
  List.forall_mem_map.mpr hlist

/-! ### Reading -/

theorem ofItemsAfter_name (hname : name ≠ "-") :
    ofItemsAfter context pending (.word name :: rest) =
      ofItemsAfter context (pending ++ [name]) rest := by
  rw [ofItemsAfter.eq_def]
  exact if_neg hname

theorem ofItemsAfter_type (hpending : pending ≠ []) :
    ofItemsAfter context pending (.word "-" :: .word type :: rest) =
      (ofRun pending type ++ ·) <$> ofItemsAfter context [] rest := by
  have hsome : ¬ pending.isEmpty = true := by simpa using hpending
  rw [ofItemsAfter.eq_def]
  simp only [if_true, if_neg hsome]

/-- Names wait for their type. -/
theorem ofItemsAfter_names (hnames : ∀ name ∈ names, name ≠ "-") :
    ofItemsAfter context pending (names.map SExpr.word ++ rest) =
      ofItemsAfter context (pending ++ names) rest := by
  induction names generalizing pending with
  | nil => rw [List.map_nil, List.nil_append, List.append_nil]
  | cons name names ih =>
    obtain ⟨hname, hnames⟩ := List.forall_mem_cons.mp hnames
    rw [List.map_cons, List.cons_append, ofItemsAfter_name hname, ih hnames, List.append_assoc]
    rfl

theorem ofItems_of_inRuns (hlist : ∀ entry ∈ list, entry.value ≠ "-")
    (hruns : list.InRuns items) : ofItems context items = .ok list := by
  unfold ofItems
  induction hruns with
  | nil => rfl
  | @untyped run _ htype =>
    rw [← List.append_nil (run.values.map SExpr.word),
      ofItemsAfter_names (values_ne_hyphen hlist), List.nil_append]
    exact congrArg Except.ok (ofRun_values htype)
  | @run run list type items hne htype _ ih =>
    obtain ⟨hrun, hrest⟩ := List.forall_mem_append.mp hlist
    have hpending : run.values ≠ [] := by simpa [values] using hne
    rw [ofItemsAfter_names (values_ne_hyphen hrun), List.nil_append,
      ofItemsAfter_type hpending, ih hrest, ofRun_values htype]
    rfl

theorem forall_mem_ofRun_iff :
    (∀ entry ∈ ofRun names type, entry.value ≠ "-") ↔ ∀ name ∈ names, name ≠ "-" := by
  rw [ofRun, List.forall_mem_map]

theorem inRuns_ofRun (names : List Name) :
    InRuns (ofRun names objectType) (names.map SExpr.word) := by
  cases names with
  | nil => exact .nil
  | cons name names =>
    have hrun : InRuns (ofRun (name :: names) objectType) _ :=
      .untyped (List.cons_ne_nil _ _) fun entry hentry => (mem_ofRun.mp hentry).2
    rwa [values_ofRun] at hrun

theorem InRuns.ofRun_append (hne : names ≠ []) (hruns : list.InRuns items) :
    InRuns (ofRun names type ++ list)
      (names.map SExpr.word ++ .word "-" :: .word type :: items) := by
  have hentries : ofRun names type ≠ [] := by simpa [ofRun] using hne
  have hrun := InRuns.run hentries (fun entry hentry => (mem_ofRun.mp hentry).2) hruns
  rwa [values_ofRun] at hrun

/-- What is read after names that wait for their type is written by these names and the items. -/
theorem inRuns_of_ofItemsAfter (hpending : ∀ name ∈ pending, name ≠ "-")
    (hread : ofItemsAfter context pending items = .ok list) :
    (∀ entry ∈ list, entry.value ≠ "-") ∧ list.InRuns (pending.map SExpr.word ++ items) := by
  fun_induction ofItemsAfter context pending items generalizing list with
  | case1 pending =>
    cases hread
    rw [List.append_nil]
    exact ⟨forall_mem_ofRun_iff.mpr hpending, inRuns_ofRun pending⟩
  | case2 => cases hread
  | case3 => cases hread
  | case4 pending hsome type rest ih =>
    obtain ⟨list, hlist, hread⟩ := exists_of_bind_eq_ok hread
    cases hread
    obtain ⟨hvalues, hruns⟩ := ih (List.forall_mem_nil _) hlist
    have hne : pending ≠ [] := by simpa using hsome
    exact ⟨List.forall_mem_append.mpr ⟨forall_mem_ofRun_iff.mpr hpending, hvalues⟩,
      hruns.ofRun_append hne⟩
  | case5 => cases hread
  | case6 pending name rest hname ih =>
    have hnames : ∀ other ∈ pending ++ [name], other ≠ "-" :=
      List.forall_mem_append.mpr ⟨hpending, List.forall_mem_singleton.mpr hname⟩
    obtain ⟨hvalues, hruns⟩ := ih hnames hread
    rw [List.map_append, List.append_assoc] at hruns
    exact ⟨hvalues, hruns⟩

theorem inRuns_of_ofItems (hread : ofItems context items = .ok list) :
    (∀ entry ∈ list, entry.value ≠ "-") ∧ list.InRuns items :=
  inRuns_of_ofItemsAfter (List.forall_mem_nil _) hread

/-- Items are read as the lists that they write without hyphens for names: however such a list is
cut into runs, it comes back with all its entries in their order, and no other items are read. -/
theorem ofItems_eq_ok_iff_inRuns (context : String) (items : List SExpr) (list : TypedList) :
    ofItems context items = .ok list ↔
      (∀ entry ∈ list, entry.value ≠ "-") ∧ list.InRuns items := by
  constructor
  · exact inRuns_of_ofItems
  · rintro ⟨hlist, hruns⟩
    exact ofItems_of_inRuns hlist hruns

/-- One list with two of its names in a run and the last one without a type, and cut in three. -/
example :
    ofItems "objects" (["a", "b", "-", "crate", "c"].map SExpr.word) =
      .ok [⟨"a", "crate"⟩, ⟨"b", "crate"⟩, ⟨"c", "object"⟩] ∧
    ofItems "objects" (["a", "-", "crate", "b", "-", "crate", "c", "-", "object"].map SExpr.word) =
      .ok [⟨"a", "crate"⟩, ⟨"b", "crate"⟩, ⟨"c", "object"⟩] := by
  decide +kernel

end StripsReach.TypedList
